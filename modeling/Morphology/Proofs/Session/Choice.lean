import Morphology.Proofs.Application.Choice
import Morphology.Proofs.Session.Cascade
import Morphology.Proofs.Session.Walk

/-! The active morphs are there for viewing only. A choice of one is seen in nothing but the views: a run of operations
with choices put in between gives the same answers to the operations, and leaves the same graph but for the active
morphs, the same schema and the same document. -/

namespace Morphology

namespace Session

/-- The session with no active morph chosen. -/
def unchosen (s : Session) : Session := { s with graph := s.graph.unchosen }

theorem unchosen_eq_iff {s t : Session} :
    s.unchosen = t.unchosen ↔ s.settings = t.settings ∧ s.schema = t.schema ∧ s.graph.unchosen = t.graph.unchosen :=
  Session.mk.injEq .. ▸ Iff.rfl

theorem checkDeletable_unchosen (s : Session) (kind : TypeKind) (name : String) :
    s.unchosen.checkDeletable kind name = s.checkDeletable kind name := by
  have hblockers : s.unchosen.blockers kind name = s.blockers kind name := by
    simp only [blockers, unchosen, Graph.nodesOfType_unchosen, List.length_map, Graph.edgesOfType_unchosen]
  unfold checkDeletable
  rw [hblockers]
  rfl

theorem exportText_unchosen (s : Session) : s.unchosen.exportText = s.exportText :=
  congrArg Document.render s.graph.toDocument_unchosen

end Session

namespace Action

open Session

variable {α : Type}

theorem overlooks_edit {x : Edit α} (hx : Overlooks Graph.unchosen x) : Overlooks unchosen (edit x) := by
  intro s t hst
  obtain ⟨hsettings, hschema, hgraph⟩ := unchosen_eq_iff.mp hst
  unfold edit
  rcases hx.ends_alike hgraph with ⟨a, g, g', hs, ht, hgg⟩ | ⟨e, g, g', hs, ht, hgg⟩
  · rw [hs, ht]
    exact congrArg (EStateM.Result.ok a) (unchosen_eq_iff.mpr ⟨hsettings, hschema, hgg⟩)
  · rw [hs, ht]
    exact congrArg (EStateM.Result.error _) (unchosen_eq_iff.mpr ⟨hsettings, hschema, hgg⟩)

theorem overlooks_editSchema (step : Schema → Except SchemaError (α × Schema)) :
    Overlooks unchosen (editSchema step) := by
  intro s t hst
  obtain ⟨hsettings, hschema, hgraph⟩ := unchosen_eq_iff.mp hst
  unfold editSchema
  rw [hschema]
  cases step t.schema with
  | ok p => exact congrArg (EStateM.Result.ok p.1) (unchosen_eq_iff.mpr ⟨hsettings, rfl, hgraph⟩)
  | error e => exact congrArg (EStateM.Result.error _) hst

theorem overlooks_editTransitions {step : Bool → Graph → Except TransitionError (α × Graph)}
    (hstep : ∀ b g, step b g.unchosen = (step b g).map (Prod.map id Graph.unchosen)) :
    Overlooks unchosen (editTransitions step) := by
  intro s t hst
  obtain ⟨hsettings, hschema, hgraph⟩ := unchosen_eq_iff.mp hst
  have hends : (step s.settings.rejectCycles s.graph).map (Prod.map id Graph.unchosen) =
      (step t.settings.rejectCycles t.graph).map (Prod.map id Graph.unchosen) := by
    rw [← hstep, ← hstep, hsettings, hgraph]
  unfold editTransitions
  cases hs : step s.settings.rejectCycles s.graph <;> cases ht : step t.settings.rejectCycles t.graph <;>
    rw [hs, ht] at hends
  · exact congrArg₂ EStateM.Result.error (congrArg SessionError.transition (Except.error.inj hends)) hst
  · cases hends
  · cases hends
  · obtain ⟨hanswer, hgg⟩ := Prod.ext_iff.mp (Except.ok.inj hends)
    exact congrArg₂ EStateM.Result.ok hanswer (unchosen_eq_iff.mpr ⟨hsettings, hschema, hgg⟩)

theorem overlooks_extend {step : Graph → α × Graph}
    (hstep : ∀ g, step g.unchosen = Prod.map id Graph.unchosen (step g)) : Overlooks unchosen (extend step) := by
  intro s t hst
  obtain ⟨hsettings, hschema, hgraph⟩ := unchosen_eq_iff.mp hst
  obtain ⟨hanswer, hgg⟩ := Prod.ext_iff.mp (StepOverlooks.intro hstep s.graph t.graph hgraph)
  exact congrArg₂ EStateM.Result.ok hanswer (unchosen_eq_iff.mpr ⟨hsettings, hschema, hgg⟩)

theorem overlooks_checkNodeType (update : NodeUpdate) : Overlooks unchosen (checkNodeType update) := by
  unfold checkNodeType
  split
  · refine .get_bind (fun _ => rfl) fun s => ?_
    split
    · exact .pure _
    · exact .throw _
  · exact .pure update

theorem overlooks_typedValue (name value : String) : Overlooks unchosen (typedValue name value) := by
  refine .get_bind (fun _ => rfl) fun s => ?_
  split
  · exact .pure none
  · split
    · exact .pure _
    · exact .throw _

theorem overlooks_perform (c : Change) : Overlooks unchosen (perform c) := overlooks_edit (c.overlooks_run none)

theorem overlooks_updateNode (o : NodeId) (update : NodeUpdate) : Overlooks unchosen (updateNode o update) :=
  (overlooks_checkNodeType update).bind fun _ => overlooks_perform _

theorem overlooks_updateAttribute (id : AttributeId) (value : String) (modifiers : AttributeModifiers) :
    Overlooks unchosen (updateAttribute id value modifiers) := by
  refine .get_bind (fun _ => rfl) fun s => ?_
  split
  · exact .throw _
  · exact (overlooks_typedValue _ value).bind fun _ => overlooks_perform _

theorem overlooks_performGuarded (guard : Guard) (c : Change) : Overlooks unchosen (performGuarded guard c) :=
  .get_bind (fun _ => rfl) fun _ => overlooks_edit (c.overlooks_run _)

theorem overlooks_deleteType (kind : TypeKind) (name : String) : Overlooks unchosen (deleteType kind name) := by
  have hedges (s : Session) : s.unchosen.graph.edgesOfType kind name = s.graph.edgesOfType kind name :=
    s.graph.edgesOfType_unchosen kind name
  refine .get_bind (fun s => by rw [checkDeletable_unchosen, hedges]) fun s => ?_
  split
  · exact .throw _
  · exact (overlooks_editSchema _).bind fun _ => (overlooks_edit (Edit.overlooks_deleteEdges _)).bind fun _ => .pure _

theorem overlooks_changeSchema (c : SchemaChange) : Overlooks unchosen (changeSchema c) := by
  cases c with
  | create d => exact overlooks_editSchema fun schema => schema.change (.create d)
  | update d => exact overlooks_editSchema fun schema => schema.change (.update d)
  | delete kind name => exact (overlooks_deleteType kind name).map

end Action

namespace Session

theorem overlooks_applyDocument (document : Document) : StepOverlooks unchosen (applyDocument document) := by
  intro s t hst
  obtain ⟨hsettings, hschema, hgraph⟩ := unchosen_eq_iff.mp hst
  have happlied := Graph.overlooks_applyDocument t.schema document s.graph t.graph hgraph
  obtain ⟨hreport, hgg⟩ := Prod.ext_iff.mp happlied
  unfold applyDocument
  rw [hschema]
  exact Prod.ext hreport (unchosen_eq_iff.mpr ⟨hsettings, rfl, hgg⟩)

end Session

namespace Operation

open Morphology.Action Session

/-- No operation reads a choice, and only a choice writes one. -/
theorem overlooks_perform (op : Operation) : Overlooks unchosen op.perform := by
  cases op with
  | apply text => exact (Overlooks.modifyGet (overlooks_applyDocument (Document.parse text))).map
  | applyDocument document => exact (Overlooks.modifyGet (overlooks_applyDocument document)).map
  | resolve name qualifier => exact (overlooks_extend fun g => g.resolve_unchosen name qualifier).map
  | importNode id name qualifier => exact (overlooks_extend fun g => g.importNode_unchosen id name qualifier).map
  | updateNode node update => exact (overlooks_updateNode node update).map
  | updateAttribute id value modifiers => exact (overlooks_updateAttribute id value modifiers).map
  | change c => exact (Action.overlooks_perform c).map
  | changeGuarded guard c => exact (overlooks_performGuarded guard c).map
  | createTransition draft => exact (overlooks_editTransitions fun b g => g.createTransition_unchosen b draft).map
  | updateTransition id update =>
    refine (overlooks_editTransitions fun b g => ?_).map
    rw [Graph.updateTransition_unchosen]
    cases g.updateTransition b id update <;> rfl
  | deleteTransition id => exact (overlooks_editTransitions fun _ g => g.deleteTransition_unchosen id).map
  | changeSchema c => exact (overlooks_changeSchema c).map

def Chooses (op : Operation) : Prop := ∃ o k, op.change? = some (.switchActive o k)

end Operation

namespace Session

/-- What an operation answers, or the error that it is refused with. -/
def answer (s : Session) (op : Operation) : Except SessionError Answer :=
  match op.perform s with
  | .ok a _ => .ok a
  | .error e _ => .error e

def answers : Session → List Operation → List (Except SessionError Answer)
  | _, [] => []
  | s, op :: ops => s.answer op :: (s.after op).answers ops

/-- `all` is `ops` with choices put in between, each of which goes through when a run of `all` from the session comes
to it; what that run answers to `ops` is listed. -/
inductive Interspersed : Session → List Operation → List Operation → List (Except SessionError Answer) → Prop where
  | nil {s} : Interspersed s [] [] []
  | perform {s op ops all as} : Interspersed (s.after op) ops all as →
    Interspersed s (op :: ops) (op :: all) (s.answer op :: as)
  | choose {s op ops all as a} : op.Chooses → s.answer op = .ok a → Interspersed (s.after op) ops all as →
    Interspersed s ops (op :: all) as

variable {s t : Session}

theorem answer_congr (h : s.unchosen = t.unchosen) (op : Operation) :
    s.answer op = t.answer op ∧ (s.after op).unchosen = (t.after op).unchosen := by
  unfold answer after
  rcases op.overlooks_perform.ends_alike h with ⟨a, s', t', hs, ht, hst⟩ | ⟨e, s', t', hs, ht, hst⟩
  · rw [hs, ht]
    exact ⟨rfl, hst⟩
  · rw [hs, ht]
    exact ⟨rfl, hst⟩

theorem unchosen_after_choice {op : Operation} (hop : op.Chooses) (s : Session) :
    (s.after op).unchosen = s.unchosen := by
  obtain ⟨o, k, hc⟩ := hop
  obtain ⟨guard, hperform⟩ := Operation.perform_change hc s
  have hrun : Leaves (Change.run guard (.switchActive o k)) s.graph fun g => g.unchosen = s.graph.unchosen :=
    (Edit.leaves_switchActive s.graph o k).bind fun _ _ h => .pure h
  have hedit : Leaves (Action.edit (Change.run guard (.switchActive o k))) s fun s' => s'.unchosen = s.unchosen :=
    Action.leaves_edit (hrun.mono fun _ hg => unchosen_eq_iff.mpr ⟨rfl, rfl, hg⟩)
  have hleaves : Leaves op.perform s fun s' => s'.unchosen = s.unchosen := by
    unfold Leaves
    rw [hperform]
    exact hedit.map
  exact after_of_leaves (I := fun s' => s'.unchosen = s.unchosen) hleaves

theorem Interspersed.alike {s : Session} {ops all : List Operation} {as : List (Except SessionError Answer)}
    (h : Interspersed s ops all as) {t : Session} (hst : s.unchosen = t.unchosen) :
    as = t.answers ops ∧ (all.foldl Session.after s).unchosen = (ops.foldl Session.after t).unchosen := by
  -- The sessions of the two runs differ from the first choice on, so the induction is over any two that look alike.
  induction h generalizing t with
  | nil => exact ⟨rfl, hst⟩
  | @perform s op ops all as _ ih =>
    obtain ⟨hanswer, hafter⟩ := answer_congr hst op
    obtain ⟨has, hend⟩ := ih hafter
    exact ⟨congrArg₂ List.cons hanswer has, hend⟩
  | @choose s op ops all as a hop _ _ ih => exact ih ((unchosen_after_choice hop s).trans hst)

/-- Choices are seen by no other operation, and in nothing that is kept. -/
theorem answers_of_interspersed {s : Session} {ops all : List Operation} {as : List (Except SessionError Answer)}
    (h : s.Interspersed ops all as) :
    as = s.answers ops ∧ (all.foldl Session.after s).graph.unchosen = (ops.foldl Session.after s).graph.unchosen ∧
      (all.foldl Session.after s).schema = (ops.foldl Session.after s).schema ∧
      (all.foldl Session.after s).exportText = (ops.foldl Session.after s).exportText := by
  obtain ⟨hanswers, hend⟩ := h.alike rfl
  obtain ⟨-, hschema, hgraph⟩ := unchosen_eq_iff.mp hend
  refine ⟨hanswers, hgraph, hschema, ?_⟩
  rw [← exportText_unchosen, hend, exportText_unchosen]

def showYoung : Operation := .change (.switchActive ⟨"crow"⟩ ⟨"crow::morph::1"⟩)

/-- The basic morph stays, and one more is made. -/
def aging : List Operation :=
  [.change (.deleteMorph ⟨"crow::morph::0"⟩), .change (.addMorph ⟨"crow"⟩ (some "old") none)]

/-- The crow is shown young in one run only, and the other operations are answered alike. -/
theorem answers_aging :
    ∃ as, youngCrow.Interspersed aging (showYoung :: aging) as ∧
      as = [.error (.edit (.reference (.protectedMorph ⟨"crow::morph::0"⟩))), .ok (.outcome (.morph ⟨"crow::morph::2"⟩))] ∧
      ((showYoung :: aging).foldl Session.after youngCrow).graph ≠ (aging.foldl Session.after youngCrow).graph ∧
      as = youngCrow.answers aging ∧
      ((showYoung :: aging).foldl Session.after youngCrow).graph.unchosen =
        (aging.foldl Session.after youngCrow).graph.unchosen ∧
      ((showYoung :: aging).foldl Session.after youngCrow).schema = (aging.foldl Session.after youngCrow).schema ∧
      ((showYoung :: aging).foldl Session.after youngCrow).exportText =
        (aging.foldl Session.after youngCrow).exportText := by
  have hrun : youngCrow.Interspersed aging (showYoung :: aging) _ :=
    .choose ⟨_, _, rfl⟩ rfl (.perform (.perform .nil))
  exact ⟨_, hrun, by decide +kernel, by decide +kernel, answers_of_interspersed hrun⟩

end Session

end Morphology
