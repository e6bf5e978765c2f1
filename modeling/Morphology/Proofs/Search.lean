import Mathlib.Logic.Relation
import Morphology.Search
import Morphology.Table

/-! Depth-first search finds a goal just where one can be reached. The arcs of the vertices that were met are given up,
and nothing is lost by that: a path that passes such a vertex goes on from one of its targets, which lie on the
stack. Beside it stand graphs without cycles, and what the arcs of one more vertex do to them. -/

namespace Morphology

section Reaching

variable {α : Type} [DecidableEq α] {arcs : List (α × List α)} {stack targets : List α} {goal : α → Bool}
  {a b c : α}

/-- The first entry of a vertex has its arcs. -/
def Arc (arcs : List (α × List α)) (a b : α) : Prop :=
  ∃ targets, arcsFrom a arcs = some targets ∧ b ∈ targets

theorem arcsFrom_withoutArcs : arcsFrom b (withoutArcs a arcs) = if b = a then none else arcsFrom b arcs := by
  induction arcs with
  | nil => simp [withoutArcs, arcsFrom]
  | cons arc arcs ih =>
    by_cases harc : arc.1 = a
    · rw [withoutArcs, if_pos harc, ih, arcsFrom, harc]
      by_cases hb : b = a
      · rw [if_pos hb, if_pos hb]
      · rw [if_neg hb, if_neg hb, if_neg (Ne.symm hb)]
    · rw [withoutArcs, if_neg harc, arcsFrom, ih, arcsFrom]
      by_cases hb : b = a
      · rw [if_pos hb, if_pos hb, hb, if_neg harc]
      · rw [if_neg hb, if_neg hb]

theorem arc_withoutArcs : Arc (withoutArcs a arcs) b c ↔ b ≠ a ∧ Arc arcs b c := by
  unfold Arc
  rw [arcsFrom_withoutArcs]
  by_cases hb : b = a <;> simp [hb]

theorem eq_of_reaches_of_arcsFrom (h : arcsFrom a arcs = none) (hab : Relation.ReflTransGen (Arc arcs) a b) :
    b = a := by
  induction hab using Relation.ReflTransGen.head_induction_on with
  | refl => rfl
  | head hac hcb ih =>
    obtain ⟨targets, htargets, -⟩ := hac
    rw [h] at htargets
    cases htargets

/-- A path that does not keep clear of the arcs of `a` can start behind the last of them. -/
theorem reaches_withoutArcs (ha : arcsFrom a arcs = some targets) (hbc : Relation.ReflTransGen (Arc arcs) b c) :
    Relation.ReflTransGen (Arc (withoutArcs a arcs)) b c ∨
      ∃ t ∈ targets, Relation.ReflTransGen (Arc (withoutArcs a arcs)) t c := by
  induction hbc using Relation.ReflTransGen.head_induction_on with
  | refl => exact Or.inl .refl
  | @head b d hbd hdc ih =>
    rcases ih with ih | ih
    · by_cases hb : b = a
      · obtain ⟨targets', htargets, hd⟩ := hbd
        rw [hb, ha] at htargets
        cases htargets
        exact Or.inr ⟨d, hd, ih⟩
      · exact Or.inl (ih.head (arc_withoutArcs.mpr ⟨hb, hbd⟩))
    · exact Or.inr ih

/-- What is found is a goal, and it can be reached. -/
theorem reaches_of_search (h : search goal arcs stack = some b) :
    goal b = true ∧ ∃ a ∈ stack, Relation.ReflTransGen (Arc arcs) a b := by
  fun_induction search goal arcs stack with
  | case1 => cases h
  | case2 arcs a rest hgoal =>
    cases h
    exact ⟨hgoal, b, List.mem_cons_self, .refl⟩
  | case3 arcs a rest hgoal hnone ih =>
    obtain ⟨hb, c, hc, hreach⟩ := ih h
    exact ⟨hb, c, List.mem_cons_of_mem _ hc, hreach⟩
  | case4 arcs a rest hgoal targets htargets ih =>
    obtain ⟨hb, c, hc, hreach⟩ := ih h
    have hreach : Relation.ReflTransGen (Arc arcs) c b :=
      Relation.ReflTransGen.mono (fun x y hxy => (arc_withoutArcs.mp hxy).2) _ _ hreach
    rcases List.mem_append.mp hc with hc | hc
    · exact ⟨hb, a, List.mem_cons_self, hreach.head ⟨targets, htargets, hc⟩⟩
    · exact ⟨hb, c, List.mem_cons_of_mem _ hc, hreach⟩

/-- A goal that can be reached from the stack is not missed. -/
theorem search_of_reaches (ha : a ∈ stack) (hab : Relation.ReflTransGen (Arc arcs) a b) (hb : goal b = true) :
    (search goal arcs stack).isSome = true := by
  fun_induction search goal arcs stack generalizing a with
  | case1 => cases ha
  | case2 => rfl
  | case3 arcs c rest hgoal hnone ih =>
    rcases List.mem_cons.mp ha with rfl | ha
    · rw [eq_of_reaches_of_arcsFrom hnone hab] at hb
      exact absurd hb hgoal
    · exact ih ha hab
  | case4 arcs c rest hgoal targets htargets ih =>
    rcases reaches_withoutArcs htargets hab with hreach | ⟨t, ht, hreach⟩
    · rcases List.mem_cons.mp ha with rfl | ha
      · have hnone : arcsFrom a (withoutArcs a arcs) = none := by rw [arcsFrom_withoutArcs, if_pos rfl]
        rw [eq_of_reaches_of_arcsFrom hnone hreach] at hb
        exact absurd hb hgoal
      · exact ih (List.mem_append_right _ ha) hreach
    · exact ih (List.mem_append_left _ ht) hreach

theorem isSome_search_iff : (search goal arcs stack).isSome = true ↔
    ∃ a ∈ stack, ∃ b, goal b = true ∧ Relation.ReflTransGen (Arc arcs) a b := by
  constructor
  · intro h
    obtain ⟨b, hb⟩ := Option.isSome_iff_exists.mp h
    obtain ⟨hgoal, a, ha, hab⟩ := reaches_of_search hb
    exact ⟨a, ha, b, hgoal, hab⟩
  · rintro ⟨a, ha, b, hgoal, hab⟩
    exact search_of_reaches ha hab hgoal

end Reaching

/-- The arcs of a table are found under its keys. -/
theorem Table.arcsFrom_entries {α β : Type} [Ord α] [Std.LawfulEqOrd α] [DecidableEq α] (t : Table α β)
    (f : β → List α) (a : α) : arcsFrom a (t.entries.map fun e => (e.1, f e.2)) = (t.get? a).map f := by
  rw [get?]
  induction t.entries with
  | nil => rfl
  | cons e es ih =>
    rw [List.map_cons, arcsFrom, find, ih]
    by_cases ha : a = e.1
    · simp [ha]
    · simp [ha, Ne.symm ha]

section Cycles

variable {α : Type} {R S : α → α → Prop} {I O : α → Prop} {a b k : α}

def Acyclic (R : α → α → Prop) : Prop := ∀ a, ¬Relation.TransGen R a a

theorem Acyclic.mono (h : Acyclic S) (hRS : ∀ a b, R a b → S a b) : Acyclic R :=
  fun a ha => h a (Relation.TransGen.mono hRS a a ha)

/-- The way to `k` up to where it is first met takes no arc from it. -/
theorem reaches_of_eq_except (hRS : ∀ a b, a ≠ k → R a b → S a b) (hak : Relation.ReflTransGen R a k) :
    Relation.ReflTransGen S a k := by
  induction hak using Relation.ReflTransGen.head_induction_on with
  | refl => exact .refl
  | @head b c hbc hck ih =>
    by_cases hb : b = k
    · rw [hb]
    · exact ih.head (hRS b c hb hbc)

/-- A path takes one of the arcs from `I` to `O`, or it was there before them. -/
theorem reaches_or_passes (hS : ∀ a b, S a b → R a b ∨ I a ∧ O b) (hab : Relation.TransGen S a b) :
    Relation.TransGen R a b ∨
      ∃ i o, I i ∧ O o ∧ Relation.ReflTransGen S a i ∧ Relation.ReflTransGen S o b := by
  induction hab using Relation.TransGen.head_induction_on with
  | @single a hab =>
    rcases hS a b hab with hab | ⟨hi, ho⟩
    · exact Or.inl (.single hab)
    · exact Or.inr ⟨a, b, hi, ho, .refl, .refl⟩
  | @head a c hac hcb ih =>
    rcases ih with ih | ⟨i, o, hi, ho, hci, hob⟩
    · rcases hS a c hac with hac | ⟨hi, ho⟩
      · exact Or.inl (ih.head hac)
      · exact Or.inr ⟨a, c, hi, ho, .refl, hcb.to_reflTransGen⟩
    · exact Or.inr ⟨i, o, hi, ho, hci.head hac, hob⟩

/-- With arcs from each of `I` to each of `O`, there is a cycle just where one of `O` leads back to one of `I`. -/
theorem acyclic_iff_of_arcs (hR : Acyclic R) (hS : ∀ a b, S a b ↔ R a b ∨ I a ∧ O b) :
    Acyclic S ↔ ¬∃ o i, O o ∧ I i ∧ Relation.ReflTransGen S o i := by
  constructor
  · rintro hacyclic ⟨o, i, ho, hi, hoi⟩
    exact hacyclic i (.head' ((hS i o).mpr (Or.inr ⟨hi, ho⟩)) hoi)
  · intro hback a ha
    rcases reaches_or_passes (fun a b => (hS a b).mp) ha with ha | ⟨i, o, hi, ho, hai, hoa⟩
    · exact hR a ha
    · exact hback ⟨o, i, ho, hi, hoa.trans hai⟩

end Cycles

end Morphology
