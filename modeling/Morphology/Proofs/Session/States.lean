import Morphology.Proofs.Session.Transitions

/-! States that transitions name. A state is there when its transition is stored, and neither its node nor its
morph can be deleted while a transition names it. So no transition names a state that is gone, nor one that is new. -/

namespace Morphology

open Edit

namespace Graph

/-- Every state that a transition names is there. -/
def StatesThere (g : Graph) : Prop := ∀ id t, g.transitions.get? id = some t → ∀ p ∈ t.pairs, g.HasState p

variable {g g' : Graph} {p : StatePair} {k : MorphId} {o : NodeId} {m : Morph} {n : Node}

theorem hasState_iff : g.HasState p ↔ ∃ n, g.nodes.get? p.node = some n ∧ p.morph ∈ n.morphs := by
  simp [HasState, Node.hasMorph]

theorem SameFrame.hasState (h : g.SameFrame g') (hp : g.HasState p) : g'.HasState p := by
  rw [hasState_iff] at hp ⊢
  obtain ⟨n, hn, hk⟩ := hp
  obtain ⟨n', hn', hf⟩ := h.node hn
  exact ⟨n', hn', (Node.frame_inj hf).2.2.2.1 ▸ hk⟩

theorem Grown.hasState (h : g.Grown g') (hp : g.HasState p) : g'.HasState p := by
  rw [hasState_iff] at hp ⊢
  obtain ⟨n, hn, hk⟩ := hp
  obtain ⟨n', hn', hgrown⟩ := h.nodes hn
  exact ⟨n', hn', hgrown.morphs.subset hk⟩

theorem hasState_withoutMorph (hk : p.morph ≠ k) (hp : g.HasState p) : (g.withoutMorph k m).HasState p := by
  rw [hasState_iff] at hp ⊢
  obtain ⟨n, hn, hin⟩ := hp
  rw [nodes_withoutMorph]
  split
  · exact ⟨n.withoutMorph k, by rw [hn, Option.map_some], Node.mem_withoutMorph.mpr ⟨hin, hk⟩⟩
  · exact ⟨n, hn, hin⟩

theorem hasState_withoutNode (ho : p.node ≠ o) (hp : g.HasState p) : (g.withoutNode o n).HasState p := by
  obtain ⟨n', hn', hk⟩ := hp
  exact ⟨n', by rw [nodes_withoutNode, if_neg ho, hn'], hk⟩

/-- A morph that is not there is the state of no node. -/
theorem StatesThere.freeMorph (h : g.StatesThere) (hf : g.Framed) (hk : g.morphs.get? k = none) : g.FreeMorph k := by
  rintro id t ht p hp rfl
  obtain ⟨n, hn, hin⟩ := hasState_iff.mp (h id t ht p hp)
  obtain ⟨m, hm, -⟩ := hf.present hn hin
  rw [hk] at hm
  cases hm

namespace StatesThere

variable (h : g.StatesThere)

include h

theorem kept (ht : g'.transitions = g.transitions)
    (hs : ∀ id t, g.transitions.get? id = some t → ∀ p ∈ t.pairs, g.HasState p → g'.HasState p) : g'.StatesThere := by
  intro id t hid p hp
  rw [ht] at hid
  exact hs id t hid p hp (h id t hid p hp)

theorem sameFrame (hs : g.SameFrame g') (ht : g'.transitions = g.transitions) : g'.StatesThere :=
  h.kept ht fun _ _ _ _ _ => hs.hasState

theorem grown (hg : g.Grown g') (ht : g'.transitions = g.transitions) : g'.StatesThere :=
  h.kept ht fun _ _ _ _ _ => hg.hasState

theorem resolve (hf : g.Framed) (name : String) (qualifier : Option String) :
    (g.resolve name qualifier).2.StatesThere :=
  h.grown (hf.resolve_spec name qualifier).1 (transitions_resolve g name qualifier)

theorem importNode (hf : g.Framed) (id : NodeId) (name : String) (qualifier : Option String) :
    (g.importNode id name qualifier).2.StatesThere :=
  importNode_induction h (fun _ _ hfree => h.grown (hf.grown_withNode hfree _ _) rfl) name qualifier

theorem withRecord (w : EdgeRecord) : (g.withRecord w).StatesThere :=
  h.sameFrame (sameFrame_withRecord g w) (by cases w <;> rfl)

end StatesThere

theorem outlastsChanges_statesThere : OutlastsChanges StatesThere where
  unlink h hs := h.sameFrame (sameFrame_unlink hs) ((outlasts_transitions _).unlink rfl hs)
  removeEdge h hs := h.sameFrame (sameFrame_removeEdge hs) ((outlasts_transitions _).removeEdge rfl hs)
  link h hs := h.sameFrame (sameFrame_link hs) ((outlasts_transitions _).link rfl hs)
  bump o h := h.sameFrame (.modifyNode _ o fun _ => rfl) rfl
  createMorph _ hf hn h := h.grown (hf.grown_createMorph hn _) rfl
  withoutMorph _ _ _ hfree h := h.kept rfl fun id t ht p hp => hasState_withoutMorph (hfree id t ht p hp)
  withoutNode _ _ hfree h := h.kept rfl fun id t ht p hp => hasState_withoutNode (hfree id t ht p hp)
  choose o _ h := h.sameFrame (.modifyNode _ o fun _ => rfl) rfl
  modify _ _ h := h.sameFrame (.of_eq rfl rfl rfl) rfl

theorem StatesThere.leaves_run (h : g.StatesThere) (hf : g.Framed) (guard : Option Guard) (c : Change) :
    Leaves (c.run guard) g StatesThere := by
  by_cases hc : c.Neutral
  · exact outlastsChanges_statesThere.leaves_run hf h guard hc
  · refine .mono (.and ?_ (transitions_run hf guard c)) fun _ ⟨hs, ht⟩ => h.sameFrame hs ht
    exact .reads_bind (Guard.reads_check guard c) (.refl g) fun _ _ => sameFrame_perform g hc

theorem outlastsActs_statesThere : OutlastsActs (fun _ => True) fun g => g.Framed ∧ g.StatesThere where
  document _ := {
    resolve := fun name qualifier h => ⟨h.1.resolve name qualifier, h.2.resolve h.1 name qualifier⟩
    addMorph := fun o name h => (outlastsChanges_framed.leaves_addMorph h.1 h.1 o name none).and
      (outlastsChanges_statesThere.leaves_addMorph h.1 h.2 o name none)
    writeEdge := fun k _ _ _ h => (h.1.leaves_writeEdge k _).and <|
      outlastsChanges_statesThere.leaves_writeEdge h.2 (h.2.resolve h.1) k fun _ h₁ _ => h₁.withRecord _ }
  importNode id name qualifier h := ⟨h.1.importNode id name qualifier, h.2.importNode h.1 id name qualifier⟩
  run guard _ h := (framed_run h.1 guard _).and (h.2.leaves_run h.1 guard _)
  updateNode _ _ := trivial
  updateAttribute _ _ _ _ := trivial
  deleteEdges es h := (outlastsChanges_framed.leaves_deleteEdges h.1 es).and
    (outlastsChanges_statesThere.leaves_deleteEdges h.2 es)

/-- What passes the check names states that are there, and storing it moves none. -/
theorem StatesThere.putTransition (h : g.StatesThere) {rejectCycles : Bool} {t : Transition}
    (hchecked : g.checkTransition rejectCycles t = .ok ()) : (g.putTransition t).StatesThere := by
  have hstates : ∀ p ∈ t.pairs, g.HasState p := states_of_checkTransition hchecked
  intro id t' ht'
  rw [Graph.putTransition, Table.lookup_insert] at ht'
  split at ht'
  · cases ht'
    exact hstates
  · exact h id t' ht'

end Graph

namespace Session

theorem statesThere_after {s : Session} (hf : s.graph.Framed) (h : s.graph.StatesThere) (op : Operation) :
    (s.after op).graph.StatesThere := by
  by_cases hop : op.EditsTransitions
  · exact after_of_leaves (leaves_of_editsTransitions hop h (fun _ => h.putTransition) (fun _ _ _ _ => h.putTransition)
      fun id k t ht => h k t (Graph.stored_of_erase ht))
  · exact (after_of_leaves (Graph.outlastsActs_statesThere.leaves_perform ⟨hf, h⟩ op.admitted_true hop)).2

theorem Attainable.statesThere {s : Session} (h : s.Attainable) : s.graph.StatesThere := by
  obtain ⟨settings, schema, hrun⟩ := h
  refine (RunWhere.invariant (I := fun s => s.graph.Framed ∧ s.graph.StatesThere) hrun
    ⟨Graph.framed_empty settings.space, fun _ _ ht => nomatch ht⟩ ?_).2
  exact fun _ op h _ => ⟨framed_after h.1 op, statesThere_after h.1 h.2 op⟩

end Session

end Morphology
