import Morphology.Proofs.Session.Attainable
import Morphology.Proofs.Transition.Storing

/-! Where cycles are rejected, the states that transitions lead through never come round. Nothing but the operations on
transitions touches them, and these ask beforehand whether what is stored would close a cycle, of whatever length. -/

namespace Morphology

open Edit

namespace Graph

/-! ## What leaves the transitions alone -/

section Elsewhere

variable {ts : Table TransitionId Transition} {g : Graph}

theorem transitions_resolve (g : Graph) (name : String) (qualifier : Option String) :
    (g.resolve name qualifier).2.transitions = g.transitions := by
  simp only [resolve]
  split <;> rfl

theorem transitions_importNode (g : Graph) (id : NodeId) (name : String) (qualifier : Option String) :
    (g.importNode id name qualifier).2.transitions = g.transitions := by
  unfold importNode
  split <;> rfl

theorem outlastsChanges_transitions (ts : Table TransitionId Transition) :
    OutlastsChanges fun g => g.transitions = ts where
  toOutlasts := outlasts_transitions ts
  createMorph _ _ _ h := h
  withoutMorph _ _ _ _ h := h
  withoutNode _ _ _ h := h
  choose _ _ h := h
  modify _ _ h := h

theorem transitions_run (hf : g.Framed) (guard : Option Guard) (c : Change) :
    Leaves (c.run guard) g fun g' => g'.transitions = g.transitions := by
  have hI := outlastsChanges_transitions g.transitions
  refine .reads_bind (Guard.reads_check guard c) rfl fun _ _ => ?_
  cases c with
  | upsertRelation morph relation => exact (hI.leaves_upsertRelation rfl morph fun _ _ => rfl).map
  | upsertAttribute morph a => exact (hI.leaves_upsertAttribute rfl morph fun _ => rfl).map
  | updateAttribute id value typed modifiers =>
    exact (hI.leaves_updateAttribute rfl fun _ _ => rfl).bind fun _ _ h' => .pure h'
  | updateNode node update =>
    refine Leaves.bind ?_ fun _ _ h' => .pure h'
    exact .demand_bind rfl fun _ _ => .modify rfl
  | _ => exact hI.leaves_perform hf rfl trivial

theorem outlastsActs_transitions (ts : Table TransitionId Transition) :
    OutlastsActs (fun _ => True) fun g => g.Framed ∧ g.transitions = ts where
  document schema := {
    resolve := fun {g} name qualifier h =>
      ⟨h.1.resolve name qualifier, (transitions_resolve g name qualifier).trans h.2⟩
    addMorph := fun o name h => (outlastsChanges_framed.leaves_addMorph h.1 h.1 o name none).and
      ((outlastsChanges_transitions ts).leaves_addMorph h.1 h.2 o name none)
    writeEdge := fun {g} k o line _ h => by
      refine (h.1.leaves_writeEdge k _).and ((outlastsChanges_transitions ts).leaves_writeEdge h.2 ?_ k ?_)
      · exact fun name qualifier => (transitions_resolve g name qualifier).trans h.2
      · intro g₁ h₁ _
        cases (Grounding.ofStatement schema g o line.2 line.1).edge.record g <;> exact h₁ }
  importNode {g} id name qualifier h :=
    ⟨h.1.importNode id name qualifier, (transitions_importNode g id name qualifier).trans h.2⟩
  run {_ c} guard _ h :=
    (framed_run h.1 guard c).and ((transitions_run h.1 guard c).mono fun _ h' => h'.trans h.2)
  updateNode _ _ := trivial
  updateAttribute _ _ _ _ := trivial
  deleteEdges es h := (outlastsChanges_framed.leaves_deleteEdges h.1 es).and
    ((outlastsChanges_transitions ts).leaves_deleteEdges h.2 es)

end Elsewhere

end Graph

/-! ## Sessions that reject cycles -/

namespace Session

open Morphology.Action

/-- Cycles are rejected, and there are none. -/
structure CycleFree (s : Session) : Prop where
  rejects : s.settings.rejectCycles = true
  framed : s.graph.Framed
  filed : s.graph.TransitionsFiled
  acyclic : Acyclic s.graph.Leads

/-- The operation stores `t` unless that closes a cycle; then it is refused. -/
structure StoresUnlessCyclic (s : Session) (op : Operation) (t : Transition) : Prop where
  refused : (∃ e s', op.perform s = .error e s') ↔ ¬Acyclic (s.graph.putTransition t).Leads
  stored : Acyclic (s.graph.putTransition t).Leads →
    ∃ answer, op.perform s = .ok answer { s with graph := s.graph.putTransition t }

theorem transitions_after {s : Session} (h : s.graph.Framed) {op : Operation} (hother : ¬op.EditsTransitions) :
    (s.after op).graph.transitions = s.graph.transitions := by
  have hacts := Graph.outlastsActs_transitions s.graph.transitions
  exact (after_of_leaves (hacts.leaves_perform ⟨h, rfl⟩ op.admitted_true hother)).2

/-- What outlasts that a transition is stored which passes the check, new or changed, and that one is taken out. -/
theorem leaves_of_editsTransitions {s : Session} {I : Graph → Prop} {op : Operation} (hop : op.EditsTransitions)
    (h : I s.graph)
    (hcreate : ∀ draft : TransitionDraft, s.graph.checkTransition s.settings.rejectCycles draft.transition = .ok () →
      I (s.graph.putTransition draft.transition))
    (hupdate : ∀ (id : TransitionId) (t : Transition) (update : TransitionUpdate),
      s.graph.transitions.get? id = some t → s.graph.checkTransition s.settings.rejectCycles (update.apply t) = .ok () →
        I (s.graph.putTransition (update.apply t)))
    (hdelete : ∀ id, I { s.graph with transitions := s.graph.transitions.erase id }) :
    Leaves op.perform s fun s' => I s'.graph := by
  cases op with
  | createTransition draft =>
    refine Leaves.map (leaves_editTransitions h fun id g hok => ?_)
    obtain ⟨hchecked, rfl⟩ := Graph.checked_of_createTransition hok
    exact hcreate draft hchecked
  | updateTransition id update =>
    refine Leaves.map (leaves_editTransitions h fun _ g hok => ?_)
    obtain ⟨_, hupdated, ⟨⟩⟩ := map_eq_ok.mp hok
    obtain ⟨t, ht, hchecked, rfl⟩ := Graph.checked_of_updateTransition hupdated
    exact hupdate id t update ht hchecked
  | deleteTransition id =>
    refine Leaves.map (leaves_editTransitions h fun t g hok => ?_)
    rw [Graph.deleteTransition_eq_ok hok]
    exact hdelete id
  | _ => exact hop.elim

namespace CycleFree

variable {s : Session} (h : s.CycleFree)

include h

theorem checked {t : Transition} (hchecked : s.graph.checkTransition s.settings.rejectCycles t = .ok ()) :
    (s.graph.putTransition t).TransitionsFiled ∧ Acyclic (s.graph.putTransition t).Leads := by
  rw [h.rejects] at hchecked
  have hnone := Graph.findCycle_of_checkTransition hchecked
  exact ⟨h.filed.putTransition t, (Graph.findCycle_others_iff h.filed h.acyclic).mp hnone⟩

/-- Making or changing a transition closes no cycle, and deleting one does not either. -/
theorem leaves_editsTransitions {op : Operation} (hop : op.EditsTransitions) :
    Leaves op.perform s fun s' => s'.graph.TransitionsFiled ∧ Acyclic s'.graph.Leads := by
  let I (g : Graph) : Prop := g.TransitionsFiled ∧ Acyclic g.Leads
  have hdelete (id : TransitionId) : I { s.graph with transitions := s.graph.transitions.erase id } := by
    refine ⟨fun k t ht => h.filed k t (Graph.stored_of_erase ht), ?_⟩
    refine h.acyclic.mono fun a b ⟨t, ht, hleads⟩ => ⟨t, ?_, hleads⟩
    obtain ⟨k, hk⟩ := Table.mem_values.mp ht
    exact Table.mem_values.mpr ⟨k, Graph.stored_of_erase hk⟩
  exact leaves_of_editsTransitions (I := I) hop ⟨h.filed, h.acyclic⟩ (fun _ hchecked => h.checked hchecked)
    (fun _ _ _ _ hchecked => h.checked hchecked) hdelete

theorem after (op : Operation) : (s.after op).CycleFree := by
  have htransitions : (s.after op).graph.TransitionsFiled ∧ Acyclic (s.after op).graph.Leads := by
    by_cases hop : op.EditsTransitions
    · exact after_of_leaves (h.leaves_editsTransitions hop)
    · have hsame := transitions_after h.framed hop
      unfold Graph.TransitionsFiled Graph.Leads
      rw [hsame]
      exact ⟨h.filed, h.acyclic⟩
  exact {
    rejects := by rw [settings_after, h.rejects]
    framed := framed_after h.framed op
    filed := htransitions.1
    acyclic := htransitions.2 }

/-- What asks just whether the states are there and whether they come round, and then stores. -/
theorem storesUnlessCyclic {α : Type} {step : Bool → Graph → Except TransitionError (α × Graph)} {f : α → Answer}
    {op : Operation} {t : Transition} {a : α} (hop : op.perform = f <$> editTransitions step)
    (hstates : ∀ p ∈ t.pairs, s.graph.HasState p)
    (hstep : step true s.graph = (s.graph.checkTransition true t).map fun _ => (a, s.graph.putTransition t)) :
    s.StoresUnlessCyclic op t := by
  have hcycle := Graph.findCycle_others_iff (t := t) h.filed h.acyclic
  rw [Graph.checkTransition_of_states hstates] at hstep
  have hperform : op.perform s = EStateM.map f (editTransitions step) s := congrFun hop s
  rw [EStateM.map, editTransitions, h.rejects, hstep] at hperform
  cases hfind : findCycle (s.graph.others t) t with
  | none =>
    rw [hfind] at hperform
    have hacyclic := hcycle.mp hfind
    refine ⟨iff_of_false ?_ (not_not_intro hacyclic), fun _ => ⟨f a, hperform⟩⟩
    rintro ⟨e, s', herror⟩
    rw [hperform] at herror
    cases herror
  | some state =>
    rw [hfind] at hperform
    have hcyclic : ¬Acyclic (s.graph.putTransition t).Leads := by
      intro hacyclic
      rw [hcycle.mpr hacyclic] at hfind
      cases hfind
    exact ⟨⟨fun _ => hcyclic, fun _ => ⟨_, _, hperform⟩⟩, fun hacyclic => absurd hacyclic hcyclic⟩

end CycleFree

theorem cycleFree_fresh {settings : Settings} (h : settings.rejectCycles = true) (schema : Schema) :
    (fresh settings schema).CycleFree where
  rejects := h
  framed := Graph.framed_empty settings.space
  filed _ _ ht := nomatch ht
  acyclic := by
    intro a ha
    obtain ⟨b, ⟨t, ht, -⟩, -⟩ := Relation.TransGen.head'_iff.mp ha
    exact nomatch ht

theorem cycleFree_of_run {settings : Settings} {schema : Schema} {s : Session} (hreject : settings.rejectCycles = true)
    (hrun : Run (fun _ => True) (fresh settings schema) s) : s.CycleFree :=
  RunWhere.invariant hrun (cycleFree_fresh hreject schema) fun _ op h _ => h.after op

/-- States do not come round where cycles are rejected, and nothing else is rejected of transitions between states that
are there. -/
theorem acyclic_of_run {settings : Settings} {schema : Schema} {s : Session} (hreject : settings.rejectCycles = true)
    (hrun : Run (fun _ => True) (fresh settings schema) s) : Acyclic s.graph.Leads ∧
      (∀ draft, Text.collapse draft.name ≠ "" → s.graph.transitions.contains draft.transition.id = false →
        (∀ p ∈ draft.transition.pairs, s.graph.HasState p) →
          s.StoresUnlessCyclic (.createTransition draft) draft.transition) ∧
      ∀ id t update, s.graph.transitions.get? id = some t → (∀ p ∈ (update.apply t).pairs, s.graph.HasState p) →
        s.StoresUnlessCyclic (.updateTransition id update) (update.apply t) := by
  have h := cycleFree_of_run hreject hrun
  refine ⟨h.acyclic, fun draft hname hfree hstates => ?_, fun id t update ht hstates => ?_⟩
  · exact h.storesUnlessCyclic rfl hstates (Graph.createTransition_eq hname hfree)
  · refine h.storesUnlessCyclic (a := ()) rfl hstates ?_
    rw [Graph.updateTransition_eq ht]
    cases s.graph.checkTransition true (update.apply t) <;> rfl

def egg : StatePair := ⟨⟨"egg"⟩, ⟨"egg::morph::0"⟩⟩

def chick : StatePair := ⟨⟨"chick"⟩, ⟨"chick::morph::0"⟩⟩

def hen : StatePair := ⟨⟨"hen"⟩, ⟨"hen::morph::0"⟩⟩

def hatching : List Operation :=
  [.importNode egg.node "egg" none, .importNode chick.node "chick" none, .importNode hen.node "hen" none,
    .createTransition { name := "hatch", inputs := [egg], outputs := [chick] },
    .createTransition { name := "grow", inputs := [chick], outputs := [hen] }]

def hatchery : Session := hatching.foldl Session.after (fresh { rejectCycles := true } ⟨{}, {}⟩)

def laying : TransitionDraft := { name := "lay", inputs := [hen], outputs := [egg] }

/-- A hen lays no egg where eggs become hens. -/
theorem acyclic_hatchery : hatchery.graph.transitions.size = 2 ∧ Acyclic hatchery.graph.Leads ∧
    ¬Acyclic (hatchery.graph.putTransition laying.transition).Leads := by
  have hrun : Run (fun _ => True) (fresh { rejectCycles := true } ⟨{}, {}⟩) hatchery :=
    run_foldl (fun _ _ _ => trivial) _
  obtain ⟨hacyclic, hcreate, -⟩ := acyclic_of_run rfl hrun
  have hchecked : Text.collapse laying.name ≠ "" ∧ hatchery.graph.transitions.contains laying.transition.id = false ∧
      hatchery.graph.checkStates laying.transition.pairs = .ok () := by decide +kernel
  have hstores := hcreate laying hchecked.1 hchecked.2.1 (Graph.checkStates_eq_ok_iff.mp hchecked.2.2)
  have hrefused : ∃ e s', (Operation.createTransition laying).perform hatchery = .error e s' := by
    have hcycle : hatchery.graph.createTransition true laying =
        .error (.cycle laying.transition.id hen) := by decide +kernel
    refine ⟨.transition (.cycle laying.transition.id hen), hatchery, ?_⟩
    show EStateM.map _ _ hatchery = _
    rw [EStateM.map, Action.editTransitions, (cycleFree_of_run rfl hrun).rejects, hcycle]
  exact ⟨by decide +kernel, hacyclic, hstores.refused.mp hrefused⟩

end Session

end Morphology
