import Morphology.Proofs.Outcome
import Morphology.Proofs.Transition.Cycle
import Morphology.Transition.Basic

/-! What is checked before a transition is stored: that its states are there, and that with it in place of the one of its
id, if there is any, the states that are led to do not come round. -/

namespace Morphology

namespace Graph

/-- An arc from each input to each output of every transition that is stored. -/
def Leads (g : Graph) : StatePair → StatePair → Prop := Transition.AnyLeads g.transitions.values

def TransitionsFiled (g : Graph) : Prop := ∀ id t, g.transitions.get? id = some t → t.id = id

/-- The node has the morph. -/
def HasState (g : Graph) (p : StatePair) : Prop := ∃ n, g.nodes.get? p.node = some n ∧ n.hasMorph p.morph = true

section Checks

variable {g g' : Graph} {t : Transition} {id : TransitionId}

theorem checkState_eq_ok_iff {p : StatePair} : g.checkState p = .ok () ↔ g.HasState p := by
  unfold checkState HasState
  cases hn : g.nodes.get? p.node with
  | none => simp
  | some n =>
    by_cases hmorph : n.hasMorph p.morph = true
    · simp [hmorph]
    · simp only [if_neg hmorph]
      split <;> simp [hmorph]

theorem checkStates_eq_ok_iff {ps : List StatePair} : g.checkStates ps = .ok () ↔ ∀ p ∈ ps, g.HasState p := by
  induction ps with
  | nil => simp [checkStates]
  | cons p ps ih =>
    rw [checkStates, bind_eq_ok, List.forall_mem_cons, ← ih, ← checkState_eq_ok_iff]
    constructor
    · rintro ⟨⟨⟩, hp, hps⟩
      exact ⟨hp, hps⟩
    · rintro ⟨hp, hps⟩
      exact ⟨(), hp, hps⟩

/-- The transitions that stay when `t` is stored. -/
def others (g : Graph) (t : Transition) : List Transition := g.transitions.values.filter (·.id ≠ t.id)

theorem checkTransition_of_states (h : ∀ p ∈ t.pairs, g.HasState p) : g.checkTransition true t =
    match findCycle (g.others t) t with
    | some state => .error (.cycle t.id state)
    | none => .ok () := by
  rw [checkTransition, checkStates_eq_ok_iff.mpr h]
  rfl

theorem states_of_checkTransition {rejectCycles : Bool} (h : g.checkTransition rejectCycles t = .ok ()) :
    ∀ p ∈ t.pairs, g.HasState p := by
  unfold checkTransition at h
  split at h
  · cases h
  · exact checkStates_eq_ok_iff.mp ‹_›

theorem findCycle_of_checkTransition (h : g.checkTransition true t = .ok ()) : findCycle (g.others t) t = none := by
  unfold checkTransition at h
  split at h
  · cases h
  · split at h
    · cases h
    · rename_i hnone
      exact hnone

theorem leads_putTransition (hfiled : g.TransitionsFiled) {a b : StatePair} :
    (g.putTransition t).Leads a b ↔ Transition.AnyLeads (g.others t ++ [t]) a b := by
  have hmem : ∀ t', t' ∈ (g.putTransition t).transitions.values ↔ t' ∈ g.others t ++ [t] := by
    intro t'
    simp only [putTransition, others, Table.mem_values, Table.lookup_insert, List.mem_append, List.mem_filter,
      List.mem_singleton, decide_eq_true_eq]
    constructor
    · rintro ⟨id, hid⟩
      split at hid
      · cases hid
        exact Or.inr rfl
      · rename_i hne
        exact Or.inl ⟨⟨id, hid⟩, fun hsame => hne ((hfiled id t' hid).symm.trans hsame)⟩
    · rintro (⟨⟨id, hid⟩, hne⟩ | rfl)
      · refine ⟨id, ?_⟩
        rw [if_neg fun hsame => hne ((hfiled id t' hid).trans hsame), hid]
      · exact ⟨t'.id, if_pos rfl⟩
  simp only [Leads, Transition.AnyLeads, hmem]

/-- The search before a transition is stored tells whether there are cycles when it is. -/
theorem findCycle_others_iff (hfiled : g.TransitionsFiled) (hacyclic : Acyclic g.Leads) :
    findCycle (g.others t) t = none ↔ Acyclic (g.putTransition t).Leads := by
  have hothers : Acyclic (Transition.AnyLeads (g.others t)) :=
    hacyclic.mono fun a b ⟨t', ht', hleads⟩ => ⟨t', List.mem_of_mem_filter ht', hleads⟩
  have hleads : (g.putTransition t).Leads = Transition.AnyLeads (g.others t ++ [t]) := by
    funext a b
    exact propext (leads_putTransition hfiled)
  rw [findCycle_eq_none_iff hothers, hleads]

theorem TransitionsFiled.putTransition (h : g.TransitionsFiled) (t : Transition) :
    (g.putTransition t).TransitionsFiled := by
  intro id t' ht'
  rw [Graph.putTransition, Table.lookup_insert] at ht'
  split at ht'
  · rename_i hid
    cases ht'
    exact hid.symm
  · exact h id t' ht'

theorem stored_of_erase {k : TransitionId} (h : (g.transitions.erase id).get? k = some t) :
    g.transitions.get? k = some t := by
  rw [Table.lookup_erase] at h
  split at h
  · cases h
  · exact h

end Checks

end Graph

/-- What a draft is stored as. -/
def TransitionDraft.transition (draft : TransitionDraft) : Transition where
  id := TransitionId.ofName (Text.collapse draft.name) (Text.collapse? draft.adjective)
  name := Text.collapse draft.name
  adjective := Text.collapse? draft.adjective
  tense := draft.tense
  inputs := draft.inputs
  outputs := draft.outputs
  description := draft.description

namespace Graph

section Edits

variable {g g' : Graph} {rejectCycles : Bool} {draft : TransitionDraft} {update : TransitionUpdate} {t : Transition}
  {id : TransitionId}

theorem createTransition_eq (hname : Text.collapse draft.name ≠ "")
    (hfree : g.transitions.contains draft.transition.id = false) : g.createTransition rejectCycles draft =
      (g.checkTransition rejectCycles draft.transition).map fun _ =>
        (draft.transition.id, g.putTransition draft.transition) := by
  have hempty : (Text.collapse draft.name).isEmpty = false := by
    rw [Bool.eq_false_iff]
    exact fun h => hname (String.isEmpty_iff.mp h)
  have hfree : g.transitions.contains (TransitionId.ofName (Text.collapse draft.name)
      (Text.collapse? draft.adjective)) = false := hfree
  simp only [createTransition, hempty, hfree, Bool.false_eq_true, if_false]
  show (g.checkTransition rejectCycles draft.transition >>= fun _ =>
    pure (draft.transition.id, g.putTransition draft.transition)) = _
  cases g.checkTransition rejectCycles draft.transition <;> rfl

theorem updateTransition_eq (ht : g.transitions.get? id = some t) : g.updateTransition rejectCycles id update =
    (g.checkTransition rejectCycles (update.apply t)).map fun _ => g.putTransition (update.apply t) := by
  simp only [updateTransition, ht]
  cases g.checkTransition rejectCycles (update.apply t) <;> rfl

theorem checked_of_createTransition (h : g.createTransition rejectCycles draft = .ok (id, g')) :
    g.checkTransition rejectCycles draft.transition = .ok () ∧ g' = g.putTransition draft.transition := by
  simp only [createTransition] at h
  split at h
  · cases h
  · split at h
    · cases h
    · obtain ⟨_, hchecked, hstored⟩ := bind_eq_ok.mp h
      cases hstored
      exact ⟨hchecked, rfl⟩

theorem checked_of_updateTransition (h : g.updateTransition rejectCycles id update = .ok g') :
    ∃ t, g.transitions.get? id = some t ∧ g.checkTransition rejectCycles (update.apply t) = .ok () ∧
      g' = g.putTransition (update.apply t) := by
  cases ht : g.transitions.get? id with
  | none =>
    rw [updateTransition, ht] at h
    cases h
  | some t =>
    rw [updateTransition_eq ht] at h
    obtain ⟨_, hchecked, rfl⟩ := map_eq_ok.mp h
    exact ⟨t, rfl, hchecked, rfl⟩

end Edits

end Graph

end Morphology
