import Morphology.Proofs.Session.Walk

/-! The sessions that runs of operations lead to, whatever the ids are made of. Where ids have colons in them, two
edges may share one id, and an operation may be refused half way; the frame of the graph is in agreement all the
same. -/

namespace Morphology

namespace Graph

theorem Framed.withTransitions {g : Graph} (h : g.Framed) (ts : Table TransitionId Transition) :
    Framed { g with transitions := ts } :=
  { h with }

theorem outlastsOperations_framed : OutlastsOperations (fun _ => True) Framed where
  document := outlastsDocuments_framed
  importNode id name qualifier h := h.importNode id name qualifier
  run {_ c} guard _ h := Edit.framed_run h guard c
  updateNode _ _ := trivial
  updateAttribute _ _ _ _ := trivial
  deleteEdges es h := outlastsChanges_framed.leaves_deleteEdges h es
  withTransitions ts h := h.withTransitions ts

end Graph

theorem Operation.admitted_true (op : Operation) : op.Admitted fun _ => True := fun _ _ => trivial

namespace Session

/-- What any operations lead to, refused or not. -/
def Attainable (s : Session) : Prop :=
  ∃ settings schema, Run (fun _ => True) (fresh settings schema) s

theorem framed_after {s : Session} (h : s.graph.Framed) (op : Operation) : (s.after op).graph.Framed :=
  Graph.outlastsOperations_framed.after h op.admitted_true

theorem Reachable.attainable {s : Session} (h : s.Reachable) : s.Attainable := by
  obtain ⟨settings, schema, -, hrun⟩ := h
  exact ⟨settings, schema, Relation.ReflTransGen.mono (fun _ _ => Step.mono fun _ _ => trivial) _ _ hrun⟩

theorem Attainable.after {s : Session} (h : s.Attainable) (op : Operation) : (s.after op).Attainable := by
  obtain ⟨settings, schema, hrun⟩ := h
  exact ⟨settings, schema, hrun.tail ⟨op, trivial, rfl⟩⟩

/-- What holds of every empty graph and outlasts all operations holds of every graph that can be attained. -/
theorem Attainable.holds {s : Session} (h : s.Attainable) {I : Graph → Prop} (hempty : ∀ space, I (.empty space))
    (hI : Graph.OutlastsOperations (fun _ => True) I) : I s.graph := by
  obtain ⟨settings, schema, hrun⟩ := h
  have hstart : I (fresh settings schema).graph := hempty settings.space
  have hadmitted : Run (Operation.Admitted fun _ => True) (fresh settings schema) s :=
    Relation.ReflTransGen.mono (fun _ _ => Step.mono fun op _ => op.admitted_true) _ _ hrun
  exact hI.of_run hstart hadmitted

theorem Attainable.framed {s : Session} (h : s.Attainable) : s.graph.Framed :=
  h.holds Graph.framed_empty Graph.outlastsOperations_framed

/-- A session in which it may be said what birds eat. -/
def feeder : Session :=
  (fresh {} ⟨{}, {}⟩).after (.changeSchema (.create (.relationType { name := "eats" })))

theorem attainable_feeder : feeder.Attainable :=
  ⟨{}, ⟨{}, {}⟩, .single ⟨_, trivial, rfl⟩⟩

end Session

end Morphology
