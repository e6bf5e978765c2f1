import Mathlib.Algebra.BigOperators.Group.List.Basic
import Mathlib.Algebra.GroupWithZero.Nat
import Morphology.View.Score

/-! Points are a sum of products that stops at the greatest number in every product and behind every term. A number
that has stopped stays where it is, so that only the exact sum has to be stopped, once. -/

namespace Morphology

/-- Every weight of `w` is at most that of `w'`. -/
structure Weights.AtMost (w w' : Weights) : Prop where
  node : w.node ≤ w'.node
  relation : w.relation ≤ w'.relation
  attr : w.attr ≤ w'.attr
  qualified : w.qualified ≤ w'.qualified
  quantified : w.quantified ≤ w'.quantified
  modality : w.modality ≤ w'.modality
  unit : w.unit ≤ w'.unit
  adverb : w.adverb ≤ w'.adverb
  advanced : w.advanced ≤ w'.advanced
  reused : w.reused ≤ w'.reused
  transition : w.transition ≤ w'.transition

namespace Counts

structure AtMost (c c' : Counts) : Prop where
  nodes : c.nodes ≤ c'.nodes
  relations : c.relations ≤ c'.relations
  attributes : c.attributes ≤ c'.attributes
  qualified : c.qualified ≤ c'.qualified
  quantified : c.quantified ≤ c'.quantified
  modality : c.modality ≤ c'.modality
  units : c.units ≤ c'.units
  adverbs : c.adverbs ≤ c'.adverbs
  advancedNodes : c.advancedNodes ≤ c'.advancedNodes
  reusedNodes : c.reusedNodes ≤ c'.reusedNodes
  transitions : c.transitions ≤ c'.transitions

/-- The points without a greatest number. -/
def exact (c : Counts) (w : Weights) : Nat :=
  c.nodes * w.node + c.relations * w.relation + c.attributes * w.attr + c.qualified * w.qualified +
    c.quantified * w.quantified + c.modality * w.modality + c.units * w.unit + c.adverbs * w.adverb +
    c.advancedNodes * w.advanced + c.reusedNodes * w.reused + c.transitions * w.transition

/-- Products added up in the order of the list, as `weigh` does. -/
def tally (pairs : List (Nat × Nat)) : Nat :=
  pairs.foldl (fun total p => saturate (total + saturate (p.1 * p.2))) 0

theorem saturate_mono {m n : Nat} (h : m ≤ n) : saturate m ≤ saturate n := by
  unfold saturate
  omega

theorem saturate_add (m n : Nat) : saturate (saturate m + saturate n) = saturate (m + n) := by
  unfold saturate
  omega

theorem foldl_saturate (pairs : List (Nat × Nat)) (total : Nat) :
    pairs.foldl (fun total p => saturate (total + saturate (p.1 * p.2))) (saturate total) =
      saturate (total + (pairs.map fun p => p.1 * p.2).sum) := by
  induction pairs generalizing total with
  | nil => simp
  | cons p pairs ih =>
    rw [List.foldl_cons, saturate_add, ih, List.map_cons, List.sum_cons, Nat.add_assoc]

theorem tally_eq (pairs : List (Nat × Nat)) : tally pairs = saturate (pairs.map fun p => p.1 * p.2).sum := by
  have hfold := foldl_saturate pairs 0
  rwa [Nat.zero_add] at hfold

theorem tally_perm {pairs pairs' : List (Nat × Nat)} (h : pairs.Perm pairs') : tally pairs = tally pairs' := by
  rw [tally_eq, tally_eq, (h.map _).sum_eq]

variable {c c' : Counts} {w w' : Weights}

theorem sum_weighted (c : Counts) (w : Weights) : ((c.weighted w).map fun p => p.1 * p.2).sum = c.exact w := by
  simp only [weighted, List.map_cons, List.map_nil, List.sum_cons, List.sum_nil, Nat.add_zero, exact, Nat.add_assoc]

theorem weigh_eq_saturate (c : Counts) (w : Weights) : c.weigh w = saturate (c.exact w) := by
  rw [← sum_weighted]
  exact tally_eq (c.weighted w)

theorem exact_mono (hc : c.AtMost c') (hw : w.AtMost w') : c.exact w ≤ c'.exact w' := by
  have hnode := Nat.mul_le_mul hc.nodes hw.node
  have hrelation := Nat.mul_le_mul hc.relations hw.relation
  have hattr := Nat.mul_le_mul hc.attributes hw.attr
  have hqualified := Nat.mul_le_mul hc.qualified hw.qualified
  have hquantified := Nat.mul_le_mul hc.quantified hw.quantified
  have hmodality := Nat.mul_le_mul hc.modality hw.modality
  have hunit := Nat.mul_le_mul hc.units hw.unit
  have hadverb := Nat.mul_le_mul hc.adverbs hw.adverb
  have hadvanced := Nat.mul_le_mul hc.advancedNodes hw.advanced
  have hreused := Nat.mul_le_mul hc.reusedNodes hw.reused
  have htransition := Nat.mul_le_mul hc.transitions hw.transition
  unfold exact
  omega

/-- Points are the exact weighted sum, stopped once at the greatest number of 64 bits. In whatever order the kinds are
added, the sum is the same, and no count and no weight lowers it by growing. -/
theorem weigh_eq_exact (c : Counts) (w : Weights) :
    c.weigh w = min (2 ^ 64 - 1) (c.exact w) ∧
      (∀ pairs, pairs.Perm (c.weighted w) → tally pairs = c.weigh w) ∧
      ∀ c' w', c.AtMost c' → w.AtMost w' → c.weigh w ≤ c'.weigh w' := by
  refine ⟨?_, fun pairs hpairs => tally_perm hpairs, fun c' w' hc hw => ?_⟩
  · rw [weigh_eq_saturate, saturate, Nat.min_comm]
    rfl
  · rw [weigh_eq_saturate, weigh_eq_saturate]
    exact saturate_mono (exact_mono hc hw)

/-- Two nodes of weight `2 ^ 63` are one point too many. They are so in the reversed order too, and stay at the greatest
number with more nodes and a greater weight for relations. -/
theorem weigh_heavy_nodes :
    let c : Counts := { nodes := 2, relations := 3 }
    let w : Weights := { node := 2 ^ 63 }
    c.exact w = 2 ^ 64 + 6 ∧ c.weigh w = 2 ^ 64 - 1 ∧ tally (c.weighted w).reverse = 2 ^ 64 - 1 ∧
      c.weigh w ≤ ({ c with nodes := 7 } : Counts).weigh { w with relation := 2 ^ 64 - 1 } := by
  intro c w
  obtain ⟨heq, hperm, hmono⟩ := weigh_eq_exact c w
  have hexact : c.exact w = 2 ^ 64 + 6 := by decide
  have hstop : c.weigh w = 2 ^ 64 - 1 := by rw [heq, hexact]; decide
  refine ⟨hexact, hstop, ?_, hmono _ _ ?_ ?_⟩
  · rw [hperm _ (List.reverse_perm _), hstop]
  · constructor <;> decide
  · constructor <;> decide

end Counts

end Morphology
