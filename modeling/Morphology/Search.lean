/-! Depth-first search along the arcs of a finite graph. Every vertex gives its arcs up when it is first met, so
the arcs still to be followed bound the search. -/

namespace Morphology

variable {α : Type} [DecidableEq α]

def arcsFrom (a : α) : List (α × List α) → Option (List α)
  | [] => none
  | arc :: arcs => if arc.1 = a then some arc.2 else arcsFrom a arcs

def withoutArcs (a : α) : List (α × List α) → List (α × List α)
  | [] => []
  | arc :: arcs => if arc.1 = a then withoutArcs a arcs else arc :: withoutArcs a arcs

def arcWeight : List (α × List α) → Nat
  | [] => 0
  | arc :: arcs => arc.2.length + 1 + arcWeight arcs

theorem arcWeight_withoutArcs_le (a : α) (arcs : List (α × List α)) :
    arcWeight (withoutArcs a arcs) ≤ arcWeight arcs := by
  induction arcs with
  | nil => exact Nat.le_refl _
  | cons arc arcs ih =>
    simp only [withoutArcs]
    split <;> simp only [arcWeight] <;> omega

theorem arcWeight_lt_of_arcsFrom {a : α} {arcs : List (α × List α)} {targets : List α}
    (h : arcsFrom a arcs = some targets) :
    arcWeight (withoutArcs a arcs) + targets.length < arcWeight arcs := by
  induction arcs with
  | nil => cases h
  | cons arc arcs ih =>
    have hle := arcWeight_withoutArcs_le a arcs
    by_cases ha : arc.1 = a
    · simp only [arcsFrom, ha, if_true, Option.some.injEq] at h
      subst h
      simp only [withoutArcs, ha, if_true, arcWeight]
      omega
    · simp only [arcsFrom, ha, if_false] at h
      have := ih h
      simp only [withoutArcs, ha, if_false, arcWeight]
      omega

/-- The first vertex met that satisfies `goal`. The stack holds the vertices to be looked at, next one
first; the targets of an arc are looked at before the rest of the stack. -/
def search (goal : α → Bool) (arcs : List (α × List α)) (stack : List α) : Option α :=
  match stack with
  | [] => none
  | a :: rest =>
    if goal a then some a
    else
      match _ : arcsFrom a arcs with
      | none => search goal arcs rest
      | some targets => search goal (withoutArcs a arcs) (targets ++ rest)
termination_by arcWeight arcs + stack.length
decreasing_by
  · simp
  · have := arcWeight_lt_of_arcsFrom ‹arcsFrom a arcs = some targets›
    simp
    omega

end Morphology
