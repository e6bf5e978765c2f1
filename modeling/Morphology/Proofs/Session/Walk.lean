import Morphology.Proofs.Edit.Frame
import Morphology.Proofs.Session.Reachable

/-! Operations as sequences of steps. What outlasts documents, imports and the changes that are admitted outlasts the
operations that are made of them, refused half way or not, and so whole runs of operations. -/

namespace Morphology

namespace Operation

/-- The change that is asked for by itself. -/
def change? : Operation → Option Change
  | change c => some c
  | changeGuarded _ c => some c
  | _ => none

def Admitted (admits : Change → Prop) (op : Operation) : Prop := ∀ c, op.change? = some c → admits c

theorem admitted_of_change?_none {admits : Change → Prop} {op : Operation} (h : op.change? = none) :
    op.Admitted admits := by
  intro c hc
  rw [h] at hc
  cases hc

/-- The guard of a change counts only where versions are guarded. -/
theorem perform_change {op : Operation} {c : Change} (h : op.change? = some c) (s : Session) :
    ∃ guard, op.perform s = (Answer.outcome <$> Action.edit (c.run guard)) s := by
  cases op with
  | change c =>
    cases h
    exact ⟨none, rfl⟩
  | changeGuarded guard c =>
    cases h
    exact ⟨if s.settings.guardVersions then some guard else none, rfl⟩
  | _ => cases h

section Change

variable {op : Operation} {c : Change} {s : Session}

theorem ensures_change (h : op.change? = some c) {P : Outcome → Graph → Prop}
    (hc : ∀ guard, Ensures (c.run guard) s.graph P) :
    Ensures op.perform s fun answer s' =>
      s' = { s with graph := s'.graph } ∧ ∃ outcome, answer = .outcome outcome ∧ P outcome s'.graph := by
  obtain ⟨guard, hperform⟩ := perform_change h s
  have hedit : Ensures (Action.edit (c.run guard)) s fun outcome s' =>
      s' = { s with graph := s'.graph } ∧ P outcome s'.graph :=
    Action.ensures_edit ((hc guard).mono fun _ _ hp => ⟨rfl, hp⟩)
  unfold Ensures
  rw [hperform]
  exact hedit.map fun outcome _ hdone => ⟨hdone.1, outcome, rfl, hdone.2⟩

theorem refuses_change (h : op.change? = some c) {I : Graph → Prop} (hc : ∀ guard, Refuses (c.run guard) s.graph I) :
    Refuses op.perform s fun s' => I s'.graph := by
  obtain ⟨guard, hperform⟩ := perform_change h s
  have hedit : Refuses (Action.edit (c.run guard)) s fun s' => I s'.graph := Action.refuses_edit (hc guard)
  unfold Refuses
  rw [hperform]
  exact hedit.map

/-- What a change ensures, the operation that asks for it does, guarded or not. -/
theorem ensures_perform (h : op.change? = some c) {P : Outcome → Graph → Prop} (hc : Ensures c.perform s.graph P) :
    Ensures op.perform s fun answer s' =>
      s' = { s with graph := s'.graph } ∧ ∃ outcome, answer = .outcome outcome ∧ P outcome s'.graph :=
  ensures_change h fun guard => .reads_bind (Guard.reads_check guard c) fun _ _ => hc

/-- Where it is the guard that refuses, nothing was done. -/
theorem refuses_perform (h : op.change? = some c) {I : Graph → Prop} (hI : I s.graph)
    (hc : Refuses c.perform s.graph I) : Refuses op.perform s fun s' => I s'.graph :=
  refuses_change h fun guard => .reads_bind (Guard.reads_check guard c) hI fun _ _ => hc

end Change

def EditsTransitions : Operation → Prop
  | createTransition _ => True
  | updateTransition _ _ => True
  | deleteTransition _ => True
  | _ => False

end Operation

namespace Graph

/-- What outlasts the operations that make, change or delete no transition. -/
structure OutlastsActs (admits : Change → Prop) (I : Graph → Prop) : Prop where
  document : ∀ schema, OutlastsDocuments schema I
  importNode : ∀ {g} (id : NodeId) (name : String) (qualifier : Option String), I g →
    I (g.importNode id name qualifier).2
  run : ∀ {g c} (guard : Option Guard), admits c → I g → Leaves (c.run guard) g I
  updateNode : ∀ o update, admits (.updateNode o update)
  updateAttribute : ∀ id value typed modifiers, admits (.updateAttribute id value typed modifiers)
  deleteEdges : ∀ {g} (es : List EdgeRef), I g → Leaves (Edit.deleteEdges es) g I

structure OutlastsOperations (admits : Change → Prop) (I : Graph → Prop) : Prop extends OutlastsActs admits I where
  withTransitions : ∀ {g} (ts : Table TransitionId Transition), I g → I { g with transitions := ts }

end Graph

namespace Action

variable {α : Type} {s : Session}

theorem leaves_edit {x : Edit α} {I : Session → Prop} (h : Leaves x s.graph fun g => I { s with graph := g }) :
    Leaves (edit x) s I := by
  unfold Leaves at h ⊢
  unfold edit
  cases hx : x s.graph <;> rw [hx] at h <;> exact h

theorem leaves_editSchema {step : Schema → Except SchemaError (α × Schema)} {I : Session → Prop} (h : I s)
    (hs : ∀ a schema, step s.schema = .ok (a, schema) → I { s with schema := schema }) :
    Leaves (editSchema step) s I := by
  unfold Leaves editSchema
  cases hstep : step s.schema with
  | ok p => exact hs p.1 p.2 hstep
  | error e => exact h

theorem leaves_create {d : Definition} {I : Session → Prop} (h : I s)
    (hput : s.schema.find? d.tidied.kind d.tidied.name = none → I { s with schema := s.schema.put d.tidied }) :
    Leaves (changeSchema (.create d)) s I := by
  show Leaves (editSchema fun schema => schema.change (.create d)) s I
  refine leaves_editSchema h fun _ schema hs => ?_
  obtain ⟨_, hcreated, ⟨⟩⟩ := map_eq_ok.mp hs
  obtain ⟨hfree, rfl⟩ := Schema.create_eq_ok hcreated
  exact hput hfree

theorem leaves_update {d : Definition} {I : Session → Prop} (h : I s)
    (hput : s.schema.update d = .ok (s.schema.put d.tidied) →
      s.schema.shared.contains d.tidied.kind d.tidied.name = false → I { s with schema := s.schema.put d.tidied }) :
    Leaves (changeSchema (.update d)) s I := by
  show Leaves (editSchema fun schema => schema.change (.update d)) s I
  refine leaves_editSchema h fun _ schema hs => ?_
  obtain ⟨_, hupdated, ⟨⟩⟩ := map_eq_ok.mp hs
  obtain ⟨hshared, rfl⟩ := Schema.update_eq_ok hupdated
  exact hput hupdated hshared

theorem leaves_editTransitions {step : Bool → Graph → Except TransitionError (α × Graph)} {I : Session → Prop}
    (h : I s) (hs : ∀ a g, step s.settings.rejectCycles s.graph = .ok (a, g) → I { s with graph := g }) :
    Leaves (editTransitions step) s I := by
  unfold Leaves editTransitions
  cases hstep : step s.settings.rejectCycles s.graph with
  | ok p => exact hs p.1 p.2 hstep
  | error e => exact h

section Transitions

variable {I : Session → Prop} (h : I s) (hts : ∀ ts, I { s with graph := { s.graph with transitions := ts } })

include h hts

theorem leaves_createTransition (draft : TransitionDraft) :
    Leaves (editTransitions fun rejectCycles g => g.createTransition rejectCycles draft) s I := by
  refine leaves_editTransitions h fun id g' hok => ?_
  obtain ⟨t, rfl⟩ := Graph.createTransition_eq_ok hok
  exact hts _

theorem leaves_updateTransition (id : TransitionId) (update : TransitionUpdate) :
    Leaves (editTransitions fun rejectCycles g =>
      (g.updateTransition rejectCycles id update).map fun g => ((), g)) s I := by
  refine leaves_editTransitions h fun _ g' hok => ?_
  obtain ⟨t, rfl⟩ := Graph.updateTransition_map_eq_ok hok
  exact hts _

theorem leaves_deleteTransition (id : TransitionId) :
    Leaves (editTransitions fun _ g => g.deleteTransition id) s I := by
  refine leaves_editTransitions h fun _ g' hok => ?_
  rw [Graph.deleteTransition_eq_ok hok]
  exact hts _

end Transitions

end Action

namespace Session

theorem after_of_leaves {s : Session} {op : Operation} {I : Session → Prop} (h : Leaves op.perform s I) :
    I (s.after op) := by
  unfold after
  unfold Leaves at h
  split <;> rename_i hrun <;> rw [hrun] at h <;> exact h

end Session

section

open Morphology.Action

variable {admits : Change → Prop} {I : Graph → Prop} {s : Session} (h : I s.graph)

namespace Graph.OutlastsActs

variable (hI : OutlastsActs admits I)

include hI h

theorem leaves_run (guard : Option Guard) {c : Change} (hc : admits c) :
    Leaves (edit (c.run guard)) s fun s' => I s'.graph :=
  leaves_edit (hI.run guard hc h)

theorem leaves_updateAttribute (id : AttributeId) (value : String) (modifiers : AttributeModifiers) :
    Leaves (Action.updateAttribute id value modifiers) s fun s' => I s'.graph := by
  refine .get_bind ?_
  split
  · exact .throw h
  · rename_i a _
    exact .reads_bind (reads_typedValue a.name value) h fun typed _ =>
      hI.leaves_run h none (hI.updateAttribute id value typed modifiers)

theorem leaves_changeSchema (c : SchemaChange) : Leaves (changeSchema c) s fun s' => I s'.graph := by
  have hstep (step : Schema → Except SchemaError (Option Definition × Schema)) :
      Leaves (editSchema step) s fun s' => I s'.graph := leaves_editSchema h fun _ _ _ => h
  cases c with
  | create d => exact hstep fun schema => schema.change (.create d)
  | update d => exact hstep fun schema => schema.change (.update d)
  | delete kind name =>
    refine Leaves.map (.get_bind ?_)
    split
    · exact .throw h
    · refine (leaves_editSchema h fun _ _ _ => h).bind fun d s₁ h₁ => ?_
      exact (leaves_edit (hI.deleteEdges (s.graph.edgesOfType kind name) h₁)).bind fun _ _ h₂ => .pure h₂

theorem leaves_perform {op : Operation} (hop : op.Admitted admits) (hother : ¬op.EditsTransitions) :
    Leaves op.perform s fun s' => I s'.graph := by
  have hdocument := hI.document s.schema
  cases op with
  | apply text => exact hdocument.applyDocument h (Document.parse text)
  | applyDocument document => exact hdocument.applyDocument h document
  | resolve name qualifier => exact hdocument.resolve name qualifier h
  | importNode id name qualifier => exact hI.importNode id name qualifier h
  | updateNode node update =>
    exact Leaves.map (.reads_bind (reads_checkNodeType update) h fun update _ =>
      hI.leaves_run h none (hI.updateNode node update))
  | updateAttribute id value modifiers => exact (hI.leaves_updateAttribute h id value modifiers).map
  | change c => exact (hI.leaves_run h none (hop c rfl)).map
  | changeGuarded guard c => exact Leaves.map (.get_bind (hI.leaves_run h _ (hop c rfl)))
  | changeSchema c => exact (hI.leaves_changeSchema h c).map
  | createTransition _ => exact absurd trivial hother
  | updateTransition _ _ => exact absurd trivial hother
  | deleteTransition _ => exact absurd trivial hother

end Graph.OutlastsActs

namespace Graph.OutlastsOperations

variable (hI : OutlastsOperations admits I)

include hI h

theorem leaves_perform {op : Operation} (hop : op.Admitted admits) : Leaves op.perform s fun s' => I s'.graph := by
  have htransitions (ts : Table TransitionId Transition) : I { s.graph with transitions := ts } :=
    hI.withTransitions ts h
  cases op with
  | createTransition draft => exact (leaves_createTransition h htransitions draft).map
  | updateTransition id update => exact (leaves_updateTransition h htransitions id update).map
  | deleteTransition id => exact (leaves_deleteTransition h htransitions id).map
  | _ => exact hI.toOutlastsActs.leaves_perform h hop id

theorem after {op : Operation} (hop : op.Admitted admits) : I (s.after op).graph :=
  Session.after_of_leaves (hI.leaves_perform h hop)

theorem of_run {s' : Session} (hrun : Session.Run (Operation.Admitted admits) s s') : I s'.graph :=
  Session.RunWhere.invariant (I := fun s => I s.graph) hrun h fun _ _ h' hop => hI.after h' hop

end Graph.OutlastsOperations

end

namespace Session

/-- What outlasts each of the writes that operations are made of: whatever becomes of the graph, and the edits of the
schema that are not refused. -/
structure OutlastsWrites (I : Session → Prop) : Prop where
  graph : ∀ {s} (g : Graph), I s → I { s with graph := g }
  schema : ∀ {s c out schema}, s.schema.change c = .ok (out, schema) → I s → I { s with schema := schema }

namespace OutlastsWrites

open Morphology.Action

variable {I : Session → Prop} (hI : OutlastsWrites I) {s : Session} (h : I s)

include hI h

theorem leaves_edit {α : Type} (x : Edit α) : Leaves (edit x) s I := by
  unfold Leaves edit
  cases x s.graph with
  | ok a g => exact hI.graph g h
  | error e g => exact hI.graph g h

theorem leaves_changeSchema (c : SchemaChange) : Leaves (changeSchema c) s I := by
  have hchange : Leaves (editSchema fun schema => schema.change c) s I :=
    leaves_editSchema h fun _ _ hs => hI.schema hs h
  cases c with
  | create d => exact hchange
  | update d => exact hchange
  | delete kind name =>
    refine Leaves.map (.get_bind ?_)
    split
    · exact .throw h
    · -- The edges of the type go after its definition.
      have hdelete : Leaves (editSchema fun schema => schema.delete kind name) s I := by
        refine leaves_editSchema h fun d schema hs => ?_
        exact hI.schema (c := .delete kind name) (map_eq_ok.mpr ⟨(d, schema), hs, rfl⟩) h
      exact hdelete.bind fun _ _ h₁ => (hI.leaves_edit h₁ _).bind fun _ _ h₂ => .pure h₂

theorem leaves_perform (op : Operation) : Leaves op.perform s I := by
  cases op with
  | apply text => exact Leaves.map (.modifyGet (hI.graph _ h))
  | applyDocument document => exact Leaves.map (.modifyGet (hI.graph _ h))
  | resolve name qualifier => exact hI.graph _ h
  | importNode id name qualifier => exact hI.graph _ h
  | updateNode node update =>
    exact Leaves.map (.reads_bind (reads_checkNodeType update) h fun update _ => hI.leaves_edit h _)
  | updateAttribute id value modifiers =>
    refine Leaves.map (.get_bind ?_)
    split
    · exact .throw h
    · rename_i a _
      exact .reads_bind (reads_typedValue a.name value) h fun typed _ => hI.leaves_edit h _
  | change c => exact (hI.leaves_edit h _).map
  | changeGuarded guard c => exact Leaves.map (.get_bind (hI.leaves_edit h _))
  | createTransition draft => exact (leaves_editTransitions h fun _ g _ => hI.graph g h).map
  | updateTransition id update => exact (leaves_editTransitions h fun _ g _ => hI.graph g h).map
  | deleteTransition id => exact (leaves_editTransitions h fun _ g _ => hI.graph g h).map
  | changeSchema c => exact (hI.leaves_changeSchema h c).map

theorem after (op : Operation) : I (s.after op) := after_of_leaves (hI.leaves_perform h op)

end OutlastsWrites

theorem outlastsWrites_settings (settings : Settings) : OutlastsWrites fun s => s.settings = settings where
  graph _ h := h
  schema _ h := h

theorem settings_after (s : Session) (op : Operation) : (s.after op).settings = s.settings :=
  (outlastsWrites_settings s.settings).after rfl op

end Session

end Morphology
