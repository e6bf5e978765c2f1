import Morphology.Proofs.Search

/-! A search that remembers the vertices it has met, counted vertex by vertex. It comes to an end in every graph that
gives finitely many arcs, cycles or not, and its answer is that of the search which gives up arcs instead. -/

namespace Morphology

variable {α : Type}

/-- From the vertices that are `seen` and those on the stack, the search ends with the answer after it has taken the
given number of vertices from the stack. -/
inductive Traverses (goal : α → Bool) (next : α → List α) : List α → List α → Nat → Option α → Prop
  | exhausted {seen : List α} : Traverses goal next seen [] 0 none
  | found {seen stack : List α} {a : α} (hgoal : goal a = true) : Traverses goal next seen (a :: stack) 1 (some a)
  | skip {seen stack : List α} {a : α} {n : Nat} {answer : Option α} (hgoal : goal a = false) (hseen : a ∈ seen)
      (h : Traverses goal next seen stack n answer) : Traverses goal next seen (a :: stack) (n + 1) answer
  | visit {seen stack : List α} {a : α} {n : Nat} {answer : Option α} (hgoal : goal a = false) (hnew : a ∉ seen)
      (h : Traverses goal next (a :: seen) (next a ++ stack) n answer) :
      Traverses goal next seen (a :: stack) (n + 1) answer

variable [DecidableEq α] {goal : α → Bool} {arcs rest : List (α × List α)} {seen stack : List α}

/-- The vertices that a vertex has arcs to. -/
def targetsOf (arcs : List (α × List α)) (a : α) : List α := (arcsFrom a arcs).getD []

/-- The arcs of the vertices that are not seen are there, and no others. -/
def LeftBy (arcs : List (α × List α)) (seen : List α) (rest : List (α × List α)) : Prop :=
  ∀ a, arcsFrom a rest = if a ∈ seen then none else arcsFrom a arcs

theorem leftBy_nil : LeftBy arcs [] arcs := fun _ => rfl

theorem LeftBy.cons {a : α} (h : LeftBy arcs seen rest) : LeftBy arcs (a :: seen) (withoutArcs a rest) := by
  intro b
  have hb := h b
  rw [arcsFrom_withoutArcs]
  by_cases hba : b = a
  · simp [hba]
  · simp [hba, hb]

/-- A vertex without arcs can count as seen. -/
theorem LeftBy.cons_of_none {a : α} (h : LeftBy arcs seen rest) (hnone : arcsFrom a rest = none) :
    LeftBy arcs (a :: seen) rest := by
  intro b
  by_cases hba : b = a
  · simp [hba, hnone]
  · simp [hba, h b]

theorem LeftBy.targetsOf_eq {a : α} (h : LeftBy arcs seen rest) (hnew : a ∉ seen) :
    targetsOf arcs a = (arcsFrom a rest).getD [] := by
  rw [targetsOf, h a, if_neg hnew]

theorem LeftBy.traverses (h : LeftBy arcs seen rest) :
    ∃ n ≤ arcWeight rest + stack.length, Traverses goal (targetsOf arcs) seen stack n (search goal rest stack) := by
  fun_induction search goal rest stack generalizing seen with
  | case1 => exact ⟨0, Nat.zero_le _, .exhausted⟩
  | case2 rest a stack hgoal =>
    refine ⟨1, ?_, .found hgoal⟩
    simp only [List.length_cons]
    omega
  | case3 rest a stack hgoal hnone ih =>
    have hgoal : goal a = false := by simpa using hgoal
    by_cases hseen : a ∈ seen
    · obtain ⟨n, hn, hrun⟩ := ih h
      refine ⟨n + 1, ?_, .skip hgoal hseen hrun⟩
      simp only [List.length_cons]
      omega
    · obtain ⟨n, hn, hrun⟩ := ih (h.cons_of_none hnone)
      have htargets : targetsOf arcs a = [] := by simp [h.targetsOf_eq hseen, hnone]
      refine ⟨n + 1, ?_, .visit hgoal hseen (by rwa [htargets])⟩
      simp only [List.length_cons]
      omega
  | case4 rest a stack hgoal targets hsome ih =>
    have hgoal : goal a = false := by simpa using hgoal
    have hnew : a ∉ seen := by
      intro hseen
      simp [h a, hseen] at hsome
    have htargets : targetsOf arcs a = targets := by simp [h.targetsOf_eq hnew, hsome]
    have hweight := arcWeight_lt_of_arcsFrom hsome
    obtain ⟨n, hn, hrun⟩ := ih h.cons
    refine ⟨n + 1, ?_, .visit hgoal hnew (by rwa [htargets])⟩
    simp only [List.length_cons, List.length_append] at hn ⊢
    omega

/-- The search ends: of a vertex that it has met it never follows the arcs again. -/
theorem traverses_search (goal : α → Bool) (arcs : List (α × List α)) (stack : List α) :
    ∃ n ≤ arcWeight arcs + stack.length, Traverses goal (targetsOf arcs) [] stack n (search goal arcs stack) :=
  leftBy_nil.traverses

end Morphology
