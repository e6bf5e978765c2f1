import Morphology.Proofs.Edit.Stamps
import Morphology.Proofs.Session.Reachable

/-! What the versions of nodes tell. Whatever is done in a session, the version of a node that was there before does
not go down, and goes up if anything that the node holds is different: its record, its morphs or its edges. -/

namespace Morphology

namespace Graph

open Edit

variable {g g₀ : Graph} {o : NodeId}

theorem witnessed_withTransitions (o : NodeId) (ts : Table TransitionId Transition) :
    Witnessed o g { g with transitions := ts } := by
  have hsame : holding { g with transitions := ts } o = g.holding o :=
    holding_eq rfl (fun _ _ _ => Iff.rfl) fun e _ _ => by cases e <;> rfl
  exact fun v hv => ⟨v, hv, le_rfl, fun hne => absurd hsame hne⟩

namespace Framed

variable (h : g.Framed)

include h

theorem witnessed_withNode (o : NodeId) {id : NodeId} (hfree : g.nodes.contains id = false) (name : String)
    (qualifier : Option String) : Witnessed o g (g.withNode id name qualifier) := by
  have hnone : g.nodes.get? id = none := Table.contains_eq_false.mp hfree
  by_cases ho : o = id
  · subst ho
    intro v hv
    rw [version?, hnone] at hv
    cases hv
  · have hconfined : Confined (Node.new id name qualifier).id g (g.withNode id name qualifier) := by
      refine confined_withMorph (h.fresh_basic hfree) fun n₀ hn₀ => ?_
      rw [show g.nodes.get? (Node.new id name qualifier).id = none from hnone] at hn₀
      cases hn₀
    exact hconfined.witnessed ho

theorem witnessed_resolve (o : NodeId) (name : String) (qualifier : Option String) :
    Witnessed o g (g.resolve name qualifier).2 :=
  resolve_induction (.refl o g) (fun _ _ => h.witnessed_withNode o (h.unused_mint _ _) _ _) name qualifier

theorem witnessed_importNode (o id : NodeId) (name : String) (qualifier : Option String) :
    Witnessed o g (g.importNode id name qualifier).2 :=
  importNode_induction (.refl o g) (fun _ _ hfree => h.witnessed_withNode o hfree _ _) name qualifier

end Framed

/-- Edges of documents have ids of their own making. -/
theorem Sound.witnessed_writeEdge (h : g.Sound) (k : MorphId) (edge : GroundedEdge) :
    Leaves (writeEdge k edge) g fun g' => g'.Sound ∧ Witnessed o g g' := by
  cases edge with
  | attr a =>
    have ha := allOrNothing_upsertAttribute h k (Attribute.new a.owner a.name a.value a.typed a.modifiers)
    refine AllOrNothing.leaves ?_ ⟨h, .refl o g⟩
    exact (ha.and (stamps_upsertAttribute h k rfl)).mono fun _ g' ⟨h', hw⟩ => ⟨h' rfl, hw.everywhere o⟩
  | relation r =>
    have hroom : (resolveTarget g r.target).2.Sound ∧ Witnessed o g (resolveTarget g r.target).2 := by
      cases r.target with
      | resolved id => exact ⟨h, .refl o g⟩
      | pending name qualifier => exact ⟨h.resolve name qualifier, h.framed.witnessed_resolve o name qualifier⟩
    refine (Leaves.modifyGet hroom).bind fun target g₁ ⟨h₁, hw₁⟩ => ?_
    have hr := allOrNothing_upsertRelation h₁ k (Relation.new r.source r.name target r.modifiers)
    refine AllOrNothing.leaves ?_ ⟨h₁, hw₁⟩
    exact (hr.and (stamps_upsertRelation h₁ k rfl)).mono fun _ g' ⟨h', hw⟩ => ⟨h' rfl, hw₁.trans (hw.everywhere o)⟩

theorem outlastsDocuments_witnessed (schema : Schema) (o : NodeId) (g₀ : Graph) :
    OutlastsDocuments schema fun g => g.Sound ∧ Witnessed o g₀ g where
  resolve name qualifier h := ⟨h.1.resolve name qualifier, h.2.trans (h.1.framed.witnessed_resolve o name qualifier)⟩
  addMorph p name h := by
    refine AllOrNothing.leaves ?_ h
    refine ((allOrNothing_addMorph h.1 p name none).and (stamps_addMorph h.1 p name none)).mono ?_
    exact fun _ _ ⟨h', hw⟩ => ⟨h', h.2.trans (hw.everywhere o)⟩
  writeEdge k _ _ _ h := (h.1.witnessed_writeEdge k _).mono fun _ ⟨h', hw⟩ => ⟨h', h.2.trans hw⟩

theorem Sound.witnessed_applyDocument (h : g.Sound) (schema : Schema) (document : Document) (o : NodeId) :
    Witnessed o g (applyDocument schema document g).2 :=
  ((outlastsDocuments_witnessed schema o g).applyDocument ⟨h, .refl o g⟩ document).2

end Graph

namespace Operation

open Morphology.Graph

/-- A node that is there after an operation has a version that tells whether it was changed. -/
def Tells (s s' : Session) : Prop :=
  ∀ o v', s'.graph.version? o = some v' → Witnessed o s.graph s'.graph

variable {s : Session}

theorem tells_transitions {α : Type} {step : Bool → Graph → Except TransitionError (α × Graph)}
    (hs : ∀ a g', step s.settings.rejectCycles s.graph = .ok (a, g') → ∃ ts, g' = { s.graph with transitions := ts }) :
    Ensures (Action.editTransitions step) s fun _ s' => Tells s s' := by
  have hsame : ∀ a g', step s.settings.rejectCycles s.graph = .ok (a, g') → ∀ o, Witnessed o s.graph g' := by
    intro a g' hok o
    obtain ⟨ts, rfl⟩ := hs a g' hok
    exact witnessed_withTransitions o ts
  exact (Action.allOrNothing_editTransitions hsame).ensures.mono fun _ s' hw o _ _ => hw o

variable (h : s.graph.Sound)

include h

theorem tells_run (guard : Option Guard) {c : Change} (hc : c.Plain) :
    Ensures (Action.edit (c.run guard)) s fun _ s' => Tells s s' :=
  Action.ensures_edit (Change.witnessed_run h guard hc)

theorem tells_changeSchema (c : SchemaChange) : Ensures (Action.changeSchema c) s fun _ s' => Tells s s' := by
  have hstep {α : Type} (step : Schema → Except SchemaError (α × Schema)) :
      Ensures (Action.editSchema step) s fun _ s' => Tells s s' := by
    refine (Action.allOrNothing_editSchema step).ensures.mono fun _ s' hs' o _ _ => ?_
    rw [hs']
    exact .refl o s.graph
  cases c with
  | create d => exact hstep fun schema => schema.change (.create d)
  | update d => exact hstep fun schema => schema.change (.update d)
  | delete kind name =>
    have hdeleted := Action.ensures_deleteType kind name fun _ _ =>
      Edit.witnessed_deleteEdges h (s.graph.edgesOfType kind name)
    refine hdeleted.map ?_
    rintro _ _ ⟨g', rfl, hw⟩ o _ _
    exact hw o

theorem tells_perform {op : Operation} (hop : op.Plain) : Ensures op.perform s fun _ s' => Tells s s' := by
  cases op with
  | apply text =>
    refine Ensures.map (P := fun _ s' => Tells s s') (Succeeds.modifyGet ?_).ensures fun _ _ ht => ht
    exact fun o _ _ => h.witnessed_applyDocument s.schema _ o
  | applyDocument document =>
    refine Ensures.map (P := fun _ s' => Tells s s') (Succeeds.modifyGet ?_).ensures fun _ _ ht => ht
    exact fun o _ _ => h.witnessed_applyDocument s.schema document o
  | resolve name qualifier =>
    rintro _ _ ⟨⟩
    exact fun o _ _ => h.framed.witnessed_resolve o name qualifier
  | importNode id name qualifier =>
    rintro _ _ ⟨⟩
    exact fun o _ _ => h.framed.witnessed_importNode o id name qualifier
  | updateNode node update =>
    refine Ensures.map (P := fun _ s' => Tells s s') ?_ fun _ _ ht => ht
    exact .reads_bind (Action.reads_checkNodeType update) fun update _ => tells_run h none trivial
  | updateAttribute id value modifiers =>
    refine Ensures.map (P := fun _ s' => Tells s s') (.get_bind ?_) fun _ _ ht => ht
    split
    · exact .throw _
    · rename_i a _
      exact .reads_bind (Action.reads_typedValue a.name value) fun typed _ => tells_run h none trivial
  | change c => exact (tells_run h none hop).map fun _ _ ht => ht
  | changeGuarded guard c => exact Ensures.map (.get_bind (tells_run h _ hop)) fun _ _ ht => ht
  | createTransition draft =>
    refine (tells_transitions fun id g' hok => ?_).map fun _ _ ht => ht
    obtain ⟨t, rfl⟩ := createTransition_eq_ok hok
    exact ⟨_, rfl⟩
  | updateTransition id update =>
    refine (tells_transitions fun _ g' hok => ?_).map fun _ _ ht => ht
    obtain ⟨t, rfl⟩ := updateTransition_map_eq_ok hok
    exact ⟨_, rfl⟩
  | deleteTransition id =>
    refine (tells_transitions fun t g' hok => ?_).map fun _ _ ht => ht
    exact ⟨_, deleteTransition_eq_ok hok⟩
  | changeSchema c => exact (tells_changeSchema h c).map fun _ _ ht => ht

end Operation

namespace Session

theorem version_of_changed {s s' : Session} (h : s.Reachable) {op : Operation} (hop : op.Plain) {answer : Answer}
    (hr : op.perform s = .ok answer s') {o : NodeId} {v v' : Nat} (hv : s.graph.version? o = some v)
    (hv' : s'.graph.version? o = some v') :
    v ≤ v' ∧ (s'.graph.holding o ≠ s.graph.holding o → v < v') := by
  obtain ⟨v₁, hv₁, hle, hlt⟩ := Operation.tells_perform h.sound hop answer s' hr o v' hv' v hv
  rw [hv'] at hv₁
  cases hv₁
  exact ⟨hle, hlt⟩

/-- The crow has an edge that leads to another node. -/
def fedCrow : Session :=
  (crow.after (.importNode ⟨"worm"⟩ "Worm" none)).after
    (.change (.upsertRelation ⟨"crow::morph::0"⟩ (Relation.new ⟨"crow"⟩ "eats" ⟨"worm"⟩ {})))

theorem reachable_fedCrow : fedCrow.Reachable := by
  have hplain (id : NodeId) (name : String) (hid : id.IsPlain) : (Operation.importNode id name none).Plain := hid
  have hcrow : Run Operation.Plain (fresh {} ⟨{}, {}⟩) crow := .single ⟨_, hplain ⟨"crow"⟩ "Crow" (by decide), rfl⟩
  have hworm := hcrow.tail ⟨_, hplain ⟨"worm"⟩ "Worm" (by decide), rfl⟩
  refine ⟨{}, ⟨{}, {}⟩, by decide, hworm.tail ⟨_, ?_, rfl⟩⟩
  rfl

/-- The version of the crow goes up when the worm is deleted. -/
theorem version_of_fedCrow : ∃ answer s', Operation.perform (.change (.deleteNode ⟨"worm"⟩)) fedCrow = .ok answer s' ∧
    fedCrow.graph.version? ⟨"crow"⟩ = some 2 ∧ s'.graph.version? ⟨"crow"⟩ = some 3 ∧ 2 ≤ 3 ∧
      (s'.graph.holding ⟨"crow"⟩ ≠ fedCrow.graph.holding ⟨"crow"⟩ → 2 < 3) := by
  have hr : ∃ answer s', Operation.perform (.change (.deleteNode ⟨"worm"⟩)) fedCrow = .ok answer s' ∧
      s'.graph.version? ⟨"crow"⟩ = some 3 := ⟨_, _, rfl, rfl⟩
  obtain ⟨answer, s', hr, hv'⟩ := hr
  have hv : fedCrow.graph.version? ⟨"crow"⟩ = some 2 := rfl
  have hplain : (Operation.change (.deleteNode ⟨"worm"⟩)).Plain := trivial
  exact ⟨answer, s', hr, hv, hv', version_of_changed reachable_fedCrow hplain hr hv hv'⟩

end Session

end Morphology
