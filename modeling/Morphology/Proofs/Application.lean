import Morphology.Application
import Morphology.Proofs.Edit.Edges
import Morphology.Proofs.Edit.Morphs

/-! Applying a document, step by step. What outlasts the making of nodes and morphs and the writing of statements that
fit the schema outlasts documents, whatever becomes of their statements; soundness does. -/

namespace Morphology

theorem applyEach_keeps_of_mem {α : Type} {step : α → Graph → Report × Graph} {I : Graph → Prop} {items : List α}
    (hstep : ∀ item ∈ items, ∀ g, I g → I (step item g).2) {g : Graph} (h : I g) : I (applyEach step items g).2 := by
  induction items generalizing g with
  | nil => exact h
  | cons item items ih =>
    obtain ⟨hitem, hitems⟩ := List.forall_mem_cons.mp hstep
    exact ih hitems (hitem g h)

theorem applyEach_keeps {α : Type} {step : α → Graph → Report × Graph} (I : Graph → Prop)
    (hstep : ∀ item g, I g → I (step item g).2) (items : List α) {g : Graph} (h : I g) :
    I (applyEach step items g).2 :=
  applyEach_keeps_of_mem (fun item _ => hstep item) h

namespace Grounding

/-- Whatever is objected to a statement is objected to on its line. -/
theorem line_of_mem_errors {schema : Schema} {g : Graph} {o : NodeId} {s : Statement} {n : Nat} {e : GroundingError}
    (he : e ∈ (ofStatement schema g o s n).errors) : e.line = n := by
  have hend {field : String} {nodeType : Option String} {allowed : List String}
      (he : e ∈ checkEnd schema field nodeType allowed n) : e.line = n := by
    unfold checkEnd at he
    split at he
    · cases he
    · split at he
      · cases he
      · rw [List.mem_singleton.mp he]
  cases s with
  | relation s =>
    simp only [ofStatement, ofRelation] at he
    split at he
    · rw [List.mem_singleton.mp he]
    · exact (List.mem_append.mp he).elim hend hend
  | attr s =>
    simp only [ofStatement, ofAttribute] at he
    split at he
    · rw [List.mem_singleton.mp he]
    · unfold checkValue at he
      split at he
      · rw [List.mem_singleton.mp he]
        rfl
      · dsimp only at he
        split at he
        · cases he
        · rw [List.mem_singleton.mp he]
          rfl

end Grounding

namespace Graph

open Edit

section Unread

variable (schema : Schema)

theorem unread_applyEach {α : Type} {step : α → Graph → Report × Graph} {errors : α → List ParseError}
    (hstep : ∀ item g, (step item g).1.unread = errors item) (items : List α) (g : Graph) :
    (applyEach step items g).1.unread = items.flatMap errors := by
  induction items generalizing g with
  | nil => rfl
  | cons item items ih => exact congrArg₂ (· ++ ·) (hstep item g) (ih _)

theorem unread_applyStatement (label : String) (o : NodeId) (k : MorphId) (line : Nat × Statement) (g : Graph) :
    (applyStatement schema label o k line g).1.unread = [] := by
  unfold applyStatement
  simp only
  split
  · split <;> rfl
  · rfl

theorem unread_applyFence (label : String) (o : NodeId) (fence : Fence) (g : Graph) :
    (applyFence schema label o fence g).1.unread = [] := by
  unfold applyFence
  split
  · rw [unread_applyEach (unread_applyStatement schema label o _)]
    exact List.flatMap_eq_nil_iff.mpr fun _ _ => rfl
  · rfl

theorem unread_applyBlock (block : Block) (g : Graph) : (applyBlock schema block g).1.unread = block.errors := by
  unfold applyBlock
  show block.errors ++ (applyEach _ block.fences _).1.unread = _
  rw [unread_applyEach (unread_applyFence schema _ _), List.flatMap_eq_nil_iff.mpr fun _ _ => rfl, List.append_nil]

/-- What could not be read is reported block by block, whatever the graph. -/
theorem unread_applyDocument (document : Document) (g : Graph) :
    (applyDocument schema document g).1.unread = document.errors :=
  unread_applyEach (unread_applyBlock schema) document.blocks g

end Unread

/-- What outlasts the steps of which applying documents is made. -/
structure OutlastsDocuments (schema : Schema) (I : Graph → Prop) : Prop where
  resolve : ∀ {g} (name : String) (qualifier : Option String), I g → I (g.resolve name qualifier).2
  addMorph : ∀ {g} (o : NodeId) (name : Option String), I g → Leaves (addMorph o name none) g I
  writeEdge : ∀ {g} (k : MorphId) (o : NodeId) (line : Nat × Statement),
    (Grounding.ofStatement schema g o line.2 line.1).errors.isEmpty = true → I g →
      Leaves (writeEdge k (Grounding.ofStatement schema g o line.2 line.1).edge) g I

namespace OutlastsDocuments

variable {schema : Schema} {I : Graph → Prop} {g : Graph} (hI : OutlastsDocuments schema I) (h : I g)

include hI h

theorem applyStatement (label : String) (o : NodeId) (k : MorphId) (line : Nat × Statement) :
    I (applyStatement schema label o k line g).2 := by
  unfold Graph.applyStatement
  simp only
  split
  · rename_i hfits
    have hw := hI.writeEdge k o line hfits h
    unfold Leaves at hw
    split <;> rename_i hrun <;> rw [hrun] at hw <;> exact hw
  · exact h

theorem fenceMorph (o : NodeId) (label : Option String) : Leaves (fenceMorph o label) g I := by
  refine .get_bind ?_
  split
  · exact .pure h
  · exact hI.addMorph o label h

theorem applyFence (label : String) (o : NodeId) (fence : Fence) : I (applyFence schema label o fence g).2 := by
  have hm := hI.fenceMorph h o fence.label
  unfold Graph.applyFence
  unfold Leaves at hm
  split
  · rename_i k g' hok
    rw [hok] at hm
    exact applyEach_keeps I (fun line _ h₁ => hI.applyStatement h₁ label o k line) _ hm
  · rename_i herror
    rw [herror] at hm
    exact hm

theorem applyBlock (block : Block) : I (applyBlock schema block g).2 :=
  applyEach_keeps I (fun fence _ h₁ => hI.applyFence h₁ _ _ fence) _ (hI.resolve _ _ h)

theorem applyDocument (document : Document) : I (applyDocument schema document g).2 :=
  applyEach_keeps I (fun block _ h₁ => hI.applyBlock h₁ block) _ h

end OutlastsDocuments

/-- A refused edge may leave its target behind, and nothing else. -/
theorem Sound.leaves_writeEdge {g : Graph} (h : g.Sound) (k : MorphId) (edge : GroundedEdge) :
    Leaves (writeEdge k edge) g Sound := by
  cases edge with
  | attr a =>
    have ha := allOrNothing_upsertAttribute h k (Attribute.new a.owner a.name a.value a.typed a.modifiers)
    exact (ha.mono fun _ _ h' => h' rfl).leaves h
  | relation r =>
    have hroom : (resolveTarget g r.target).2.Sound := by
      cases r.target with
      | resolved id => exact h
      | pending name qualifier => exact h.resolve name qualifier
    refine (Leaves.modifyGet hroom).bind fun target g₁ h₁ => ?_
    have hr := allOrNothing_upsertRelation h₁ k (Relation.new r.source r.name target r.modifiers)
    exact (hr.mono fun _ _ h' => h' rfl).leaves h₁

theorem outlastsDocuments_sound (schema : Schema) : OutlastsDocuments schema Sound where
  resolve name qualifier h := h.resolve name qualifier
  addMorph o name h := (allOrNothing_addMorph h o name none).leaves h
  writeEdge k _ _ _ h := h.leaves_writeEdge k _

/-- No schema has a say in the making of morphs. -/
theorem Sound.leaves_fenceMorph {g : Graph} (h : g.Sound) (o : NodeId) (label : Option String) :
    Leaves (fenceMorph o label) g Sound :=
  (outlastsDocuments_sound ⟨{}, {}⟩).fenceMorph h o label

end Graph

end Morphology
