import Morphology.Proofs.Search.Traversal
import Morphology.Proofs.Table
import Morphology.Transition.Cycle

/-! The search for a cycle tells whether one more transition closes any: with cycles among the others or without, an
input of the transition is found just where one of its outputs leads back to an input. -/

namespace Morphology

namespace Transition

/-- Each input leads to each output. -/
def Leads (t : Transition) (a b : StatePair) : Prop := a ∈ t.inputs ∧ b ∈ t.outputs

/-- One of the transitions leads from `a` to `b`. -/
def AnyLeads (ts : List Transition) (a b : StatePair) : Prop := ∃ t ∈ ts, t.Leads a b

end Transition

namespace KeySet

variable {κ : Type} [Ord κ] [Std.TransOrd κ] [Std.LawfulEqOrd κ] [DecidableEq κ]

theorem contains_foldl_add (ks : List κ) (s : KeySet κ) (k : κ) :
    (ks.foldl add s).contains k = true ↔ k ∈ ks ∨ s.contains k = true := by
  induction ks generalizing s with
  | nil => simp
  | cons k' ks ih => rw [List.foldl_cons, ih, contains_add, List.mem_cons, or_assoc, or_left_comm]

end KeySet

/-- The states are in the table under the ones that lead to them. -/
def Leading (arcs : Table StatePair (KeySet StatePair)) (a b : StatePair) : Prop :=
  ((arcs.get? a).getD ∅).contains b = true

variable {arcs : Table StatePair (KeySet StatePair)} {t : Transition} {ts existing : List Transition}
  {a b s : StatePair}

theorem leading_insert {outputs : List StatePair} :
    Leading (arcs.insert s (outputs.foldl KeySet.add ((arcs.get? s).getD ∅))) a b ↔
      a = s ∧ b ∈ outputs ∨ Leading arcs a b := by
  unfold Leading
  rw [Table.lookup_insert]
  by_cases ha : a = s
  · rw [if_pos ha, Option.getD_some, KeySet.contains_foldl_add, ha]
    simp
  · rw [if_neg ha]
    simp [ha]

theorem leading_addArcs : Leading (addArcs arcs t) a b ↔ t.Leads a b ∨ Leading arcs a b := by
  have hinputs : ∀ (inputs : List StatePair) (arcs : Table StatePair (KeySet StatePair)),
      Leading (inputs.foldl (fun arcs input =>
        arcs.insert input (t.outputs.foldl KeySet.add ((arcs.get? input).getD ∅))) arcs) a b ↔
        (a ∈ inputs ∧ b ∈ t.outputs) ∨ Leading arcs a b := by
    intro inputs
    induction inputs with
    | nil => simp
    | cons input inputs ih =>
      intro arcs
      rw [List.foldl_cons, ih, leading_insert, List.mem_cons, or_and_right, or_assoc, or_left_comm]
  exact hinputs t.inputs arcs

theorem leading_foldl_addArcs :
    Leading (ts.foldl addArcs arcs) a b ↔ Transition.AnyLeads ts a b ∨ Leading arcs a b := by
  induction ts generalizing arcs with
  | nil => simp [Transition.AnyLeads]
  | cons t ts ih =>
    rw [List.foldl_cons, ih, leading_addArcs]
    simp only [Transition.AnyLeads, List.mem_cons, exists_eq_or_imp]
    rw [or_assoc, or_left_comm]

theorem arc_stateArcs : Arc (stateArcs ts) a b ↔ Transition.AnyLeads ts a b := by
  have hempty : ¬Leading ∅ a b := by simp [Leading, Table.get?_empty, Table.contains]
  have hleading : Leading (ts.foldl addArcs ∅) a b ↔ Transition.AnyLeads ts a b := by
    rw [leading_foldl_addArcs, or_iff_left hempty]
  rw [← hleading, Arc, stateArcs, Leading]
  rw [Table.arcsFrom_entries (ts.foldl addArcs ∅) (fun outputs => outputs.keys.reverse)]
  cases (ts.foldl addArcs ∅).get? a with
  | none => simp [Table.contains, Table.get?_empty]
  | some outputs => simp [Table.mem_keys]

theorem reaches_stateArcs :
    Relation.ReflTransGen (Arc (stateArcs ts)) = Relation.ReflTransGen (Transition.AnyLeads ts) := by
  have harcs : Arc (stateArcs ts) = Transition.AnyLeads ts := by
    funext a b
    exact propext arc_stateArcs
  rw [harcs]

/-- What is found is an input that one of the outputs leads to. -/
theorem reaches_of_findCycle (h : findCycle existing t = some s) : s ∈ t.inputs ∧
    ∃ o ∈ t.outputs, Relation.ReflTransGen (Transition.AnyLeads (existing ++ [t])) o s := by
  obtain ⟨hinput, o, ho, hreach⟩ := reaches_of_search h
  rw [reaches_stateArcs] at hreach
  exact ⟨List.contains_iff_mem.mp hinput, o, List.mem_reverse.mp ho, hreach⟩

theorem isSome_findCycle_iff : (findCycle existing t).isSome = true ↔
    ∃ o i, o ∈ t.outputs ∧ i ∈ t.inputs ∧
      Relation.ReflTransGen (Transition.AnyLeads (existing ++ [t])) o i := by
  rw [findCycle, isSome_search_iff, reaches_stateArcs]
  simp only [List.mem_reverse, List.contains_iff_mem]
  constructor
  · rintro ⟨o, ho, i, hi, hreach⟩
    exact ⟨o, i, ho, hi, hreach⟩
  · rintro ⟨o, i, ho, hi, hreach⟩
    exact ⟨o, ho, i, hi, hreach⟩

/-- Among transitions without a cycle, nothing is found just where one more of them leaves it so. -/
theorem findCycle_eq_none_iff (h : Acyclic (Transition.AnyLeads existing)) :
    findCycle existing t = none ↔ Acyclic (Transition.AnyLeads (existing ++ [t])) := by
  have harcs : ∀ a b, Transition.AnyLeads (existing ++ [t]) a b ↔
      Transition.AnyLeads existing a b ∨ a ∈ t.inputs ∧ b ∈ t.outputs := by
    intro a b
    simp [Transition.AnyLeads, Transition.Leads, or_and_right, exists_or]
  rw [acyclic_iff_of_arcs h harcs, ← isSome_findCycle_iff, Bool.not_eq_true, Option.isSome_eq_false_iff,
    Option.isNone_iff_eq_none]

/-- The states that a state leads to, greater ones first. -/
def statesAfter (ts : List Transition) (s : StatePair) : List StatePair := targetsOf (stateArcs ts) s

theorem mem_statesAfter : b ∈ statesAfter ts a ↔ Transition.AnyLeads ts a b := by
  rw [← arc_stateArcs, Arc, statesAfter, targetsOf]
  cases arcsFrom a (stateArcs ts) <;> simp

/-- The search ends. What it finds is an input that one of the outputs leads back to, and where it finds nothing there
is none; so among transitions without a cycle it finds nothing just where one more leaves them without. -/
theorem findCycle_decides (existing : List Transition) (t : Transition) :
    (∃ n ≤ arcWeight (stateArcs (existing ++ [t])) + t.outputs.length,
      Traverses (fun s => t.inputs.contains s) (statesAfter (existing ++ [t])) [] t.outputs.reverse n
        (findCycle existing t)) ∧
    (∀ s, findCycle existing t = some s → s ∈ t.inputs ∧
      ∃ o ∈ t.outputs, Relation.ReflTransGen (Transition.AnyLeads (existing ++ [t])) o s) ∧
    (findCycle existing t = none → ∀ o ∈ t.outputs, ∀ i ∈ t.inputs,
      ¬Relation.ReflTransGen (Transition.AnyLeads (existing ++ [t])) o i) ∧
    (Acyclic (Transition.AnyLeads existing) →
      (findCycle existing t = none ↔ Acyclic (Transition.AnyLeads (existing ++ [t])))) := by
  have hends := traverses_search (fun s => t.inputs.contains s) (stateArcs (existing ++ [t])) t.outputs.reverse
  rw [List.length_reverse] at hends
  have hmissed : findCycle existing t = none → ∀ o ∈ t.outputs, ∀ i ∈ t.inputs,
      ¬Relation.ReflTransGen (Transition.AnyLeads (existing ++ [t])) o i := by
    intro hnone o ho i hi hreach
    have hsome := isSome_findCycle_iff.mpr ⟨o, i, ho, hi, hreach⟩
    simp [hnone] at hsome
  exact ⟨hends, fun s hs => reaches_of_findCycle hs, hmissed, findCycle_eq_none_iff⟩

namespace Transition

def ice : StatePair := ⟨⟨"water"⟩, ⟨"water::morph::1"⟩⟩

def water : StatePair := ⟨⟨"water"⟩, ⟨"water::morph::0"⟩⟩

def steam : StatePair := ⟨⟨"steam"⟩, ⟨"steam::morph::0"⟩⟩

def passing (name : String) (a b : StatePair) : Transition :=
  ⟨TransitionId.ofName name none, name, none, .present, [a], [b], ""⟩

/-- Ice and water lead to each other, which boiling does not make worse; boiling and condensing do. -/
theorem findCycle_water :
    findCycle [passing "melt" ice water, passing "freeze" water ice] (passing "boil" water steam) = none ∧
    (¬Relation.ReflTransGen (AnyLeads [passing "melt" ice water, passing "freeze" water ice,
      passing "boil" water steam]) steam water) ∧
    findCycle [passing "boil" water steam] (passing "condense" steam water) = some steam ∧
    ¬Acyclic (AnyLeads [passing "boil" water steam, passing "condense" steam water]) := by
  have hboil : findCycle [passing "melt" ice water, passing "freeze" water ice] (passing "boil" water steam) = none := by
    decide +kernel
  have hcondense : findCycle [passing "boil" water steam] (passing "condense" steam water) = some steam := by
    decide +kernel
  have hfree : Acyclic (AnyLeads [passing "boil" water steam]) := by
    have hleads : ∀ {a b}, AnyLeads [passing "boil" water steam] a b → a = water ∧ b = steam := by
      intro a b hab
      simpa [AnyLeads, Leads, passing] using hab
    intro a ha
    obtain ⟨b, hab, hba⟩ := Relation.TransGen.head'_iff.mp ha
    obtain ⟨c, hcb, hca⟩ := Relation.TransGen.tail'_iff.mp ha
    have hsame : water = steam := (hleads hab).1.symm.trans (hleads hca).2
    exact absurd hsame (by decide)
  obtain ⟨-, -, hmissed, -⟩ :=
    findCycle_decides [passing "melt" ice water, passing "freeze" water ice] (passing "boil" water steam)
  obtain ⟨-, -, -, hiff⟩ := findCycle_decides [passing "boil" water steam] (passing "condense" steam water)
  refine ⟨hboil, hmissed hboil steam List.mem_cons_self water List.mem_cons_self, hcondense, fun hacyclic => ?_⟩
  have hnone := (hiff hfree).mpr hacyclic
  rw [hcondense] at hnone
  cases hnone

end Transition

end Morphology
