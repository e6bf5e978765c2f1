import Morphology.Edit.Change
import Morphology.Proofs.Edit.Edges
import Morphology.Proofs.Edit.Morphs
import Morphology.Proofs.Edit.Nodes

/-! Every change of a sound graph, guarded or not, either goes through or leaves the graph alone, and what it
leaves is sound. -/

namespace Morphology

open Edit

variable {g : Graph}

/-- The edges that a change writes have the ids that their content gives them. -/
def Change.Plain : Change → Prop
  | .upsertRelation _ r => r.IsComposed
  | .upsertAttribute _ a => a.IsComposed
  | _ => True

namespace Guard

theorem reads_checkNode (guard : Option Guard) (o : NodeId) : Reads (checkNode guard o) g fun _ => True := by
  unfold checkNode
  split
  · exact Reads.pure trivial
  · split
    · refine (Reads.demand _).bind fun n _ => ?_
      split
      · exact Reads.pure trivial
      · exact .throw _
    · exact Reads.pure trivial

theorem reads_checkMorph (guard : Option Guard) (k : MorphId) : Reads (checkMorph guard k) g fun _ => True :=
  (Reads.demand _).bind fun m _ => reads_checkNode guard m.owner

theorem reads_checkEdge (guard : Option Guard) (e : EdgeRef) : Reads (checkEdge guard e) g fun _ => True := by
  refine (Reads.demand _).bind fun _ _ => .get_bind ?_
  split
  · exact reads_checkNode guard _
  · exact Reads.pure trivial

theorem reads_check (guard : Option Guard) (c : Change) : Reads (check guard c) g fun _ => True := by
  cases c with
  | addMorph node _ _ => exact reads_checkNode guard node
  | switchActive _ _ => exact Reads.pure trivial
  | deleteMorph morph => exact reads_checkMorph guard morph
  | copyRef _ _ target => exact reads_checkMorph guard target
  | moveRef _ _ target => exact reads_checkMorph guard target
  | unlistRef _ morph => exact reads_checkMorph guard morph
  | deleteEdge edge => exact reads_checkEdge guard edge
  | upsertRelation _ relation => exact reads_checkNode guard relation.source
  | upsertAttribute _ a => exact reads_checkNode guard a.owner
  | updateRelation id _ => exact reads_checkEdge guard (.relation id)
  | updateAttribute id _ _ _ => exact reads_checkEdge guard (.attr id)
  | updateNode node _ => exact reads_checkNode guard node
  | deleteNode node => exact reads_checkNode guard node

end Guard

namespace Change

/-- After a change the graph is sound, and one that deletes answers with what it deleted. -/
def Post (c : Change) (g : Graph) (outcome : Outcome) (g' : Graph) : Prop :=
  (c.Plain → g'.Sound) ∧ ∀ x, c.deletion? g = some x → ∃ d, outcome = .deleted d ∧ x.Exact d g g'

theorem post_of_exact {c : Change} {x : Deletion} {d : Deleted} {g' : Graph} (hx : c.deletion? g = some x)
    (h : g'.Sound ∧ x.Exact d g g') : c.Post g (.deleted d) g' := by
  refine ⟨fun _ => h.1, fun y hy => ⟨d, rfl, ?_⟩⟩
  rw [hx] at hy
  cases hy
  exact h.2

theorem allOrNothing_perform (h : g.Sound) (c : Change) : AllOrNothing c.perform g (c.Post g) := by
  cases c with
  | addMorph node name seed =>
    exact (allOrNothing_addMorph h node name seed).map fun _ _ h' => ⟨fun _ => h', nofun⟩
  | switchActive node morph =>
    exact (allOrNothing_switchActive h node morph).bind fun _ _ h' => .pure ⟨fun _ => h', nofun⟩
  | deleteMorph morph => exact (allOrNothing_deleteMorph h morph).map fun _ _ => post_of_exact rfl
  | copyRef edge source target =>
    exact (allOrNothing_copyRef h edge source target).map fun _ _ h' => ⟨fun _ => h', nofun⟩
  | moveRef edge source target =>
    exact (allOrNothing_moveRef h edge source target).bind fun _ _ h' => .pure ⟨fun _ => h', nofun⟩
  | unlistRef edge morph => exact (allOrNothing_unlistRef h edge morph).map fun _ _ => post_of_exact rfl
  | deleteEdge edge => exact (allOrNothing_deleteEdge h edge).map fun _ _ => post_of_exact rfl
  | upsertRelation morph relation =>
    exact (allOrNothing_upsertRelation h morph relation).map fun _ _ h' => ⟨h', nofun⟩
  | upsertAttribute morph a => exact (allOrNothing_upsertAttribute h morph a).map fun _ _ h' => ⟨h', nofun⟩
  | updateRelation id modifiers =>
    exact (allOrNothing_updateRelation h id modifiers).bind fun _ _ h' => .pure ⟨fun _ => h', nofun⟩
  | updateAttribute id value typed modifiers =>
    exact (allOrNothing_updateAttribute h id value typed modifiers).bind fun _ _ h' => .pure ⟨fun _ => h', nofun⟩
  | updateNode node update =>
    exact (allOrNothing_updateNode h node update).bind fun _ _ h' => .pure ⟨fun _ => h', nofun⟩
  | deleteNode node => exact (allOrNothing_deleteNode h node).map fun _ _ => post_of_exact rfl

theorem allOrNothing_run (h : g.Sound) (guard : Option Guard) (c : Change) :
    AllOrNothing (c.run guard) g (c.Post g) :=
  (Guard.reads_check guard c).bind fun _ _ => allOrNothing_perform h c

end Change

end Morphology
