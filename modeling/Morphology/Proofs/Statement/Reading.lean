import Morphology.Proofs.Statement.Grammar

/-! Which statement a line is read as. `Statement.Legible` is what holds of every statement read from some line:
each part is what a token may have as its text, and the words of the target or the value are words. -/

namespace Morphology

open Chars Token

def RelationStatement.Legible (r : RelationStatement) : Prop :=
  ∃ ws, ws ≠ [] ∧ r.targetName.toList = [' '].intercalate ws ∧ ∀ p ∈ r.contents ws, p.1.Carries p.2

def AttributeStatement.Legible (a : AttributeStatement) : Prop :=
  (a.name.toList ≠ [] ∧ collapse a.name.toList = a.name.toList ∧ ':' ∉ a.name.toList ∧
      a.name.toList.all Statement.isNameChar = true) ∧
    ∃ ws, ws ≠ [] ∧ a.value.toList = [' '].intercalate ws ∧ ∀ p ∈ a.contents ws, p.1.Carries p.2

namespace Statement

def Legible : Statement → Prop
  | relation r => r.Legible
  | attr a => a.Legible

theorem parseRelation_eq_ok {body : List Char} {line column : Nat} {s : Statement} :
    parseRelation body line column = .ok s ↔ ∃ r ws, s = .relation r ∧ ws ≠ [] ∧
      r.targetName.toList = [' '].intercalate ws ∧ Lexes body (r.contents ws) := by
  simp only [parseRelation, bind_eq_ok, relationOf_eq_ok]
  constructor
  · rintro ⟨ts, hts, r, ⟨ws, hne, htarget, hcontents⟩, hs⟩
    cases hs
    exact ⟨r, ws, rfl, hne, htarget, hcontents ▸ lexes_of_tokensFrom hts⟩
  · rintro ⟨r, ws, rfl, hne, htarget, hl⟩
    obtain ⟨ts, hts, hcontents⟩ := tokensFrom_of_lexes hl line ⟨0, column⟩
    exact ⟨ts, hts, r, ⟨ws, hne, htarget, hcontents⟩, rfl⟩

theorem parseAttribute_eq_ok {rest : List Char} {line column : Nat} {s : Statement} :
    parseAttribute rest line column = .ok s ↔ ∃ a ws before value, s = .attr a ∧
      splitFirst [':'] rest = some (before, value) ∧ a.name.toList = collapse before ∧ a.name.toList ≠ [] ∧
      a.name.toList.all isNameChar = true ∧ ws ≠ [] ∧ a.value.toList = [' '].intercalate ws ∧
      Lexes value (a.contents ws) := by
  unfold parseAttribute
  cases hsplit : splitFirst [':'] rest with
  | none => simp
  | some p =>
    obtain ⟨before, value⟩ := p
    simp only
    split
    · rename_i hbad
      simp only [reduceCtorEq, Option.some.injEq, Prod.mk.injEq, false_iff, not_exists, not_and]
      rintro a ws b v - ⟨rfl, rfl⟩ hname hne hall
      rw [← hname] at hbad
      simp [hne, hall] at hbad
    · rename_i hgood
      simp only [not_or, Bool.not_eq_false] at hgood
      simp only [bind_eq_ok, attributeOf_eq_ok]
      constructor
      · rintro ⟨ts, hts, a, ⟨hname, ws, hne, hvalue, hcontents⟩, hs⟩
        cases hs
        have hchars : a.name.toList = collapse before := by rw [hname, String.toList_ofList]
        exact ⟨a, ws, before, value, rfl, rfl, hchars, hchars ▸ hgood.1, hchars ▸ hgood.2, hne, hvalue,
          hcontents ▸ lexes_of_tokensFrom hts⟩
      · rintro ⟨a, ws, _, _, rfl, hsplit, hname, -, -, hne, hvalue, hl⟩
        cases hsplit
        obtain ⟨ts, hts, hcontents⟩ := tokensFrom_of_lexes hl line ⟨0, column + 3 + before.length + 1⟩
        refine ⟨ts, hts, a, ⟨?_, ws, hne, hvalue, hcontents⟩, rfl⟩
        rw [← hname, String.ofList_toList]

theorem parse_eq_ok {raw : String} {line : Nat} {s : Statement} :
    parse raw line = .ok s ↔ parseChars raw.toList line = .ok s := by
  unfold parse
  split
  · rename_i h
    simp [h]
  · rename_i h
    simp [h]

/-- Which statement a line is read as does not depend on where it stands. -/
theorem parse_eq_ok_congr {raw : String} {s : Statement} (m n : Nat) : parse raw m = .ok s ↔ parse raw n = .ok s := by
  rw [parse_eq_ok, parse_eq_ok]
  unfold parseChars
  simp only
  split
  · simp
  · split <;> simp only [parseAttribute_eq_ok, parseRelation_eq_ok]

theorem legible_of_parse {raw : String} {line : Nat} {s : Statement} (h : parse raw line = .ok s) : s.Legible := by
  rw [parse_eq_ok] at h
  unfold parseChars at h
  simp only at h
  split at h
  · cases h
  · split at h
    · obtain ⟨a, ws, before, value, rfl, hsplit, hname, hne, hall, hws, hvalue, hl⟩ := parseAttribute_eq_ok.mp h
      have hcolon : ':' ∉ a.name.toList := by
        intro hin
        rw [hname] at hin
        have hbefore := mem_of_mem_collapse (by decide) hin
        exact not_infix_of_splitFirst (by simp) hsplit ((List.singleton_infix_iff ':' before).mpr hbefore)
      exact ⟨⟨hne, by rw [hname, collapse_collapse], hcolon, hall⟩, ws, hws, hvalue, carries_of_lexes hl⟩
    · obtain ⟨r, ws, rfl, hws, htarget, hl⟩ := parseRelation_eq_ok.mp h
      exact ⟨ws, hws, htarget, carries_of_lexes hl⟩

end Statement

end Morphology
