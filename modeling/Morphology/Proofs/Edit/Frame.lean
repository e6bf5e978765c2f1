import Morphology.Proofs.Application.Writing
import Morphology.Proofs.Edit.Walk
import Morphology.Proofs.Graph.Subjects

/-! What edits do to the frame of a graph, refused half way or not, and whatever the ids are made of. Edits of
references and edges leave the frame as it is; those that make or unmake morphs and nodes keep it in agreement. -/

namespace Morphology

namespace Graph

variable {g g' : Graph} {k : MorphId} {e : EdgeRef}

theorem sameFrame_replaceMorph {m m' : Morph} {x : Index EdgeRef MorphId} (hm : g.morphs.get? k = some m)
    (hb : m'.bare = m.bare) : g.SameFrame { g with morphs := g.morphs.insert k m', referrers := x } := by
  refine ⟨fun _ => rfl, fun l => ?_, rfl⟩
  rw [Table.lookup_insert]
  split
  · rename_i hl
    rw [hl, hm, Option.map_some, Option.map_some, hb]
  · rfl

theorem sameFrame_unlink {left : Nat} (h : g.unlink k e = .ok (left, g')) : g.SameFrame g' := by
  obtain ⟨m, hm, rfl⟩ := unlink_eq_ok h
  refine sameFrame_replaceMorph hm ?_
  rw [Morph.remove_eq_keep, Morph.bare_keep]

theorem sameFrame_link {added : Bool} (h : g.link k e = .ok (added, g')) : g.SameFrame g' := by
  obtain ⟨m, hm, -, rfl⟩ := link_eq_ok h
  simp only [linking, hm]
  split
  · exact .refl g
  · exact sameFrame_replaceMorph hm (Morph.bare_insert m e)

theorem sameFrame_removeEdge {losers : List MorphId} (h : g.removeEdge e = .ok (losers, g')) : g.SameFrame g' := by
  obtain ⟨-, rfl⟩ := removeEdge_eq_ok h
  refine ⟨fun _ => by rw [eraseEdgeRecord_nodes], fun k => ?_, eraseEdgeRecord_names g e⟩
  rw [lookup_withoutEdge, eraseEdgeRecord_morphs]
  split
  · rw [Option.map_map]
    refine congrArg (Option.map · _) (funext fun m => ?_)
    rw [Function.comp_apply, Morph.remove_eq_keep, Morph.bare_keep]
  · rfl

theorem outlasts_sameFrame (g₀ : Graph) : Outlasts g₀.SameFrame where
  unlink h hs := h.trans (sameFrame_unlink hs)
  removeEdge h hs := h.trans (sameFrame_removeEdge hs)
  link h hs := h.trans (sameFrame_link hs)
  bump o h := h.trans (.modifyNode _ o fun _ => rfl)

theorem outlasts_transitions (ts : Table TransitionId Transition) : Outlasts fun g => g.transitions = ts where
  unlink h hs := by
    obtain ⟨m, -, rfl⟩ := unlink_eq_ok hs
    exact h
  removeEdge {g _ e _} h hs := by
    obtain ⟨-, rfl⟩ := removeEdge_eq_ok hs
    exact (transitions_eraseEdgeRecord g e).trans h
  link {g _ k e _} h hs := by
    obtain ⟨m, -, -, rfl⟩ := link_eq_ok hs
    exact (transitions_linking g k e).trans h
  bump o h := h

/-- What outlasts the changes that write no values of their own and delete no node, in graphs whose frame is in
agreement. -/
structure OutlastsMorphs (I : Graph → Prop) : Prop extends Outlasts I where
  createMorph : ∀ {g o n name}, g.FreeName o name → g.Framed → g.nodes.get? o = some n → I g →
    I (g.withMorph g.names n.withMorph (MorphId.ofNode n.id n.nextMorph) name)
  withoutMorph : ∀ {g k m}, g.Framed → g.morphs.get? k = some m → k ≠ MorphId.ofNode m.owner 0 → g.FreeMorph k →
    I g → I (g.withoutMorph k m)
  choose : ∀ {g} (o : NodeId) (k : MorphId), I g → I (g.modifyNode o fun n => { n with active := some k })
  modify : ∀ {g id r} (modifiers : RelationModifiers), g.relations.get? id = some r → I g →
    I { g with relations := g.relations.insert id { r with modifiers := modifiers } }

/-- What outlasts the deletion of a node as well. -/
structure OutlastsChanges (I : Graph → Prop) : Prop extends OutlastsMorphs I where
  withoutNode : ∀ {g o n}, g.Framed → g.nodes.get? o = some n → g.FreeNode o → I g → I (g.withoutNode o n)

theorem outlastsChanges_framed : OutlastsChanges Framed where
  unlink h hs := (sameFrame_unlink hs).framed h
  removeEdge h hs := (sameFrame_removeEdge hs).framed h
  link h hs := (sameFrame_link hs).framed h
  bump o h := (SameFrame.modifyNode _ o (f := Node.bump) fun _ => rfl).framed h
  createMorph _ hf hn _ := hf.createMorph hn _
  withoutMorph hf hm hbasic _ _ := hf.withoutMorph hm hbasic
  withoutNode hf hn _ _ := hf.withoutNode hn
  choose o k h := (SameFrame.modifyNode _ o (f := fun n => { n with active := some k }) fun _ => rfl).framed h
  modify {g id r} modifiers _ h := by
    have hsame : g.SameFrame { g with relations := g.relations.insert id { r with modifiers := modifiers } } :=
      .of_eq rfl rfl rfl
    exact hsame.framed h

end Graph

namespace Edit

theorem reads_seed {g : Graph} (o : NodeId) (seed : Option MorphId) : Reads (seedRefs o seed) g fun _ => True := by
  cases seed with
  | none => exact Reads.pure trivial
  | some k =>
    refine (Reads.demand _).bind fun m _ => ?_
    split
    · exact Reads.pure trivial
    · exact .refuse _

end Edit

/-- The change writes no edge and no value that comes from outside. -/
def Change.Neutral : Change → Prop
  | .upsertRelation _ _ => False
  | .upsertAttribute _ _ => False
  | .updateAttribute _ _ _ _ => False
  | .updateNode _ _ => False
  | _ => True

namespace Graph.Outlasts

open Edit

variable {I : Graph → Prop} {g : Graph} (hI : Outlasts I) (h : I g)

include hI h

/-- A node goes last, and what goes before it is references and edges. -/
theorem ensures_deleteNode (o : NodeId) : Ensures (deleteNode o) g fun _ g' =>
    ∃ g₁ n, I g₁ ∧ g₁.FreeNode o ∧ g₁.nodes.get? o = some n ∧ g' = g₁.withoutNode o n := by
  have hJ := (outlasts_transitions g.transitions).and hI
  refine .demand_bind fun n _ => .reads_bind (reads_requireFreeNode o) fun _ hfree => ?_
  refine (hJ.leaves_purgeMorphs ⟨rfl, h⟩ n.morphs).ensures.bind fun _ g₁ h₁ => .get_bind ?_
  refine (hJ.leaves_removeEdges h₁ (edgesAt g₁ o)).ensures.bind fun _ g₂ ⟨ht, h₂⟩ => ?_
  refine (Ensures.change fun n₂ g₃ hs => ?_).bind fun _ g₃ h₃ => .pure h₃
  obtain ⟨hn₂, rfl⟩ := removeNode_eq_ok hs
  exact ⟨g₂, n₂, h₂, hfree.of_transitions ht, hn₂, rfl⟩

/-- A node that may not be deleted is still there, whatever has been lost by then. -/
theorem refuses_deleteNode (o : NodeId) : Refuses (deleteNode o) g I := by
  refine .reads_bind (Reads.demand _) h fun n _ => .reads_bind (reads_requireFreeNode o) h fun _ _ => ?_
  refine .leaves_bind (hI.leaves_purgeMorphs h n.morphs) (fun _ => id) fun _ g₁ h₁ => .get_bind ?_
  refine .leaves_bind (hI.leaves_removeEdges h₁ (edgesAt g₁ o)) (fun _ => id) fun _ g₂ h₂ => ?_
  exact (Refuses.change h₂).bind (P := fun _ _ => True) (fun _ _ _ => trivial) fun _ _ _ => .pure

end Graph.Outlasts

namespace Graph.OutlastsMorphs

open Edit

variable {I : Graph → Prop} {g : Graph} (hI : OutlastsMorphs I) (hf : g.Framed) (h : I g)

include hI h

theorem leaves_switchActive (o : NodeId) (k : MorphId) : Leaves (switchActive o k) g I := by
  refine .demand_bind h fun n _ => ?_
  split
  · exact .modify (hI.choose o k h)
  · refine .get_bind ?_
    split
    · exact .refuse h
    · exact .refuse h

include hf

theorem leaves_makeMorph {o : NodeId} {n : Node} (hn : g.nodes.get? o = some n) {name : Option String}
    (hname : g.FreeName o name) (refs : List EdgeRef) : Leaves (makeMorph o name refs) g I := by
  refine (Leaves.change h fun id g₁ hs => ?_).bind fun id g₁ h₁ => ?_
  · rw [createMorph_eq hn (hf.node hn).1] at hs
    cases hs
    exact hI.createMorph hname hf hn h
  · refine (hI.leaves_linkAll h₁ id refs).bind fun _ g₂ h₂ => ?_
    exact (hI.leaves_touchNode h₂ o).bind fun _ _ h₃ => .pure h₃

theorem leaves_addMorph (o : NodeId) (name : Option String) (seed : Option MorphId) :
    Leaves (addMorph o name seed) g I := by
  unfold Leaves
  obtain hrefused | ⟨n, hn, hname, hrun⟩ := addMorph_cases hf o name
  · obtain ⟨e, he⟩ := hrefused seed
    rw [he]
    exact h
  · rw [hrun]
    exact Leaves.reads_bind (reads_seed o seed) h fun refs _ => hI.leaves_makeMorph hf h hn hname refs

theorem leaves_deleteMorph (k : MorphId) : Leaves (deleteMorph k) g I := by
  refine .demand_bind h fun m hm => .demand_bind h fun n hn => ?_
  rw [requireMorph_eq_ok] at hm
  rw [requireNode_eq_ok] at hn
  obtain ⟨hid, hnum⟩ := hf.node hn
  split
  · exact .throw h
  · rename_i hbasic
    have hne : k ≠ MorphId.ofNode m.owner 0 := by
      rintro rfl
      exact hbasic (by rw [hnum.basicMorph_eq, hid])
    refine .reads_bind (reads_requireFreeMorph k) h fun _ hfree => ?_
    -- The morph is still there, and still the same but for its references, when these are gone.
    have hJ := (outlasts_sameFrame g).and ((outlasts_transitions g.transitions).and hI.toOutlasts)
    refine (hJ.leaves_purgeAll ⟨.refl g, rfl, h⟩ k m.refs).chain (fun _ h₁ => h₁.2.2) fun edges g₁ ⟨hs₁, ht₁, h₁⟩ => ?_
    obtain ⟨m₁, hm₁, hb⟩ := hs₁.morph hm
    refine (Leaves.change h₁ fun _ g₂ hs => ?_).bind fun _ g₂ h₂ => ?_
    · rw [removeMorph_eq hm₁] at hs
      cases hs
      have hne₁ : k ≠ MorphId.ofNode m₁.owner 0 := by rw [(Morph.bare_inj hb).2.2]; exact hne
      exact hI.withoutMorph (hs₁.framed hf) hm₁ hne₁ (hfree.of_transitions ht₁) h₁
    · exact (hI.leaves_touchNode h₂ m.owner).bind fun _ _ h₃ => .pure h₃

theorem leaves_perform {c : Change} (hc : c.Neutral) (hd : ∀ o, c ≠ .deleteNode o) : Leaves c.perform g I := by
  cases c with
  | addMorph node name seed => exact (hI.leaves_addMorph hf h node name seed).map
  | switchActive node morph => exact (hI.leaves_switchActive h node morph).bind fun _ _ h' => .pure h'
  | deleteMorph morph => exact (hI.leaves_deleteMorph hf h morph).map
  | copyRef edge source target => exact (hI.leaves_copyRef h edge source target).map
  | moveRef edge source target => exact (hI.leaves_moveRef h edge source target).bind fun _ _ h' => .pure h'
  | unlistRef edge morph => exact (hI.leaves_unlistRef h edge morph).map
  | deleteEdge edge => exact (hI.leaves_deleteEdge h edge).map
  | updateRelation id modifiers =>
    have hupdated : Leaves (updateRelation id modifiers) g I :=
      hI.leaves_updateRelation h fun _ hr => hI.modify modifiers hr h
    exact hupdated.bind fun _ _ h' => .pure h'
  | deleteNode node => exact absurd rfl (hd node)
  | upsertRelation _ _ => exact hc.elim
  | upsertAttribute _ _ => exact hc.elim
  | updateAttribute _ _ _ _ => exact hc.elim
  | updateNode _ _ => exact hc.elim

end Graph.OutlastsMorphs

namespace Graph.OutlastsChanges

open Edit

variable {I : Graph → Prop} {g : Graph} (hI : OutlastsChanges I) (hf : g.Framed) (h : I g)

include hI hf h

theorem leaves_deleteNode (o : NodeId) : Leaves (deleteNode o) g I := by
  have hJ := (outlasts_sameFrame g).and hI.toOutlasts
  refine ((hJ.ensures_deleteNode ⟨.refl g, h⟩ o).mono ?_).leaves ?_
  · rintro _ _ ⟨g₁, n, ⟨hs, h₁⟩, hfree, hn, rfl⟩
    exact hI.withoutNode (hs.framed hf) hn hfree h₁
  · exact (hJ.refuses_deleteNode ⟨.refl g, h⟩ o).mono fun _ h' => h'.2

theorem leaves_perform {c : Change} (hc : c.Neutral) : Leaves c.perform g I := by
  by_cases hd : ∃ o, c = .deleteNode o
  · obtain ⟨o, rfl⟩ := hd
    exact (hI.leaves_deleteNode hf h o).map
  · exact hI.toOutlastsMorphs.leaves_perform hf h hc (not_exists.mp hd)

theorem leaves_run (guard : Option Guard) {c : Change} (hc : c.Neutral) : Leaves (c.run guard) g I :=
  .reads_bind (Guard.reads_check guard c) h fun _ _ => hI.leaves_perform hf h hc

end Graph.OutlastsChanges

namespace Edit

open Morphology.Graph

section

variable (g : Graph)

theorem sameFrame_upsertRelation (k : MorphId) (r : Relation) : Leaves (upsertRelation k r) g g.SameFrame :=
  (outlasts_sameFrame g).leaves_upsertRelation (.refl g) k fun _ _ => .of_eq rfl rfl rfl

theorem sameFrame_upsertAttribute (k : MorphId) (a : Attribute) : Leaves (upsertAttribute k a) g g.SameFrame :=
  (outlasts_sameFrame g).leaves_upsertAttribute (.refl g) k fun _ => .of_eq rfl rfl rfl

theorem sameFrame_updateAttribute (id : AttributeId) (value : String) (typed : Option Value)
    (modifiers : AttributeModifiers) : Leaves (updateAttribute id value typed modifiers) g g.SameFrame :=
  (outlasts_sameFrame g).leaves_updateAttribute (.refl g) fun _ _ => .of_eq rfl rfl rfl

theorem sameFrame_updateNode (o : NodeId) (update : NodeUpdate) : Leaves (updateNode o update) g g.SameFrame :=
  .demand_bind (.refl g) fun _ _ => .modify (.modifyNode g o fun _ => rfl)

/-- Writing values changes nothing of the frame. -/
theorem sameFrame_perform {c : Change} (hc : ¬c.Neutral) : Leaves c.perform g g.SameFrame := by
  cases c with
  | upsertRelation morph relation => exact (sameFrame_upsertRelation g morph relation).map
  | upsertAttribute morph a => exact (sameFrame_upsertAttribute g morph a).map
  | updateAttribute id value typed modifiers =>
    exact (sameFrame_updateAttribute g id value typed modifiers).bind fun _ _ h' => .pure h'
  | updateNode node update => exact (sameFrame_updateNode g node update).bind fun _ _ h' => .pure h'
  | _ => exact absurd trivial hc

end

variable {g : Graph} (h : g.Framed)

include h

theorem framed_run (guard : Option Guard) (c : Change) : Leaves (c.run guard) g Framed := by
  refine .reads_bind (Guard.reads_check guard c) h fun _ _ => ?_
  by_cases hc : c.Neutral
  · exact outlastsChanges_framed.leaves_perform h h hc
  · exact (sameFrame_perform g hc).mono fun _ hs => hs.framed h

end Edit

namespace Graph

open Edit

/-- An edge is written down after its target is made, and where its ends are. -/
theorem Outlasts.leaves_writeEdge {I : Graph → Prop} {g : Graph} (hI : Outlasts I) (h : I g)
    (hresolve : ∀ name qualifier, I (g.resolve name qualifier).2) (k : MorphId) {edge : GroundedEdge}
    (hput : ∀ g₁, I g₁ → g₁.HasEnds (edge.record g).subject → I (g₁.withRecord (edge.record g))) :
    Leaves (writeEdge k edge) g I := by
  cases edge with
  | attr a => exact hI.leaves_upsertAttribute h k fun howner => hput g h ⟨howner, nofun⟩
  | relation r =>
    have hroom : I (resolveTarget g r.target).2 := by
      cases r.target with
      | resolved id => exact h
      | pending name qualifier => exact hresolve name qualifier
    refine .modifyGet_bind (hI.leaves_upsertRelation hroom k fun hsource htarget => hput _ hroom ⟨hsource, ?_⟩)
    rintro b ⟨⟩
    exact htarget

theorem sameFrame_withRecord (g : Graph) (w : EdgeRecord) : g.SameFrame (g.withRecord w) :=
  .of_eq (withRecord_nodes g w) (withRecord_morphs g w) (withRecord_names g w)

theorem Framed.leaves_writeEdge {g : Graph} (h : g.Framed) (k : MorphId) (edge : GroundedEdge) :
    Leaves (writeEdge k edge) g Framed :=
  outlastsChanges_framed.leaves_writeEdge h h.resolve k fun g₁ h₁ _ => (sameFrame_withRecord g₁ _).framed h₁

theorem outlastsDocuments_framed (schema : Schema) : OutlastsDocuments schema Framed where
  resolve name qualifier h := h.resolve name qualifier
  addMorph o name h := outlastsChanges_framed.leaves_addMorph h h o name none
  writeEdge k _ _ _ h := h.leaves_writeEdge k _

end Graph

end Morphology
