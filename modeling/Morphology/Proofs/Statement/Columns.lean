import Morphology.Proofs.Statement.Acceptance
import Morphology.Proofs.Statement.Faults

/-! Errors point into their line. Columns count the characters of the line as it was read, however far it is indented
and whichever part of it was cut into tokens. In the column of an error stands the token that was not expected, the
delimiter that opens what is empty or not closed, or the character no token starts with; behind the end there are
only blanks. -/

namespace Morphology

open Chars

theorem Token.fault_of_scan {cs lexeme : List Char} {fault : ParseFault} (h : scan cs = .error (fault, lexeme)) :
    (∃ kind, (fault = .unterminated kind ∨ fault = .emptyToken kind) ∧ kind ≠ .word ∧ kind.opening <+: cs) ∨
      ∃ c, fault = .strayCharacter c ∧ c ∈ cs.head? := by
  unfold scan at h
  split at h
  · rename_i kind rest hopen
    have hword := (kind_of_opening hopen).1
    have hprefix : kind.opening <+: cs := ⟨rest, (opening?_eq hopen).symm⟩
    split at h
    · cases h
      exact .inl ⟨kind, .inl rfl, hword, hprefix⟩
    · simp only at h
      split at h
      · cases h
        exact .inl ⟨kind, .inr rfl, hword, hprefix⟩
      · cases h
  · split at h
    · cases h
      exact .inr ⟨'>', rfl, rfl⟩
    · cases h
      exact .inr ⟨']', rfl, rfl⟩
    · cases h

namespace Statement

open Token

/-- The part of a line that is cut into tokens: all of it behind the indentation, or an attribute's value. -/
inductive IsCut (raw : String) : List Char → Prop
  | relation (h : ∀ rest, ¬StatesAttribute (trimStart raw.toList) rest) : IsCut raw (trimStart raw.toList)
  | value {before value : List Char} (h : StatesAttribute (trimStart raw.toList) (before ++ ':' :: value))
      (hcolon : ':' ∉ before) : IsCut raw value

/-- What the error of a line says of its end `rest`, the part that stands from the error's column on. -/
def PointsAt (raw : String) (n : Nat) (rest : List Char) (e : ParseError) : Prop :=
  match e.fault with
  | .strayCharacter c => c ∈ rest.head?
  | .unterminated kind => kind ≠ .word ∧ kind.opening <+: rest
  | .emptyToken kind => kind ≠ .word ∧ kind.opening <+: rest
  | .endOfLine _ => ∀ c ∈ rest, isBlank c = true
  | .unexpected _ found => ∃ part ts, IsCut raw part ∧ tokensOfEnd raw n part = .ok ts ∧
      ∃ t ∈ ts, t.kind = found ∧ t.span = e.span ∧
        ∃ lexeme after, scan rest = .ok (found, t.text, lexeme, after)
  | .badAttributeName found => ∃ before value, rest = before ++ ':' :: value ∧ ':' ∉ before ∧
      found = String.ofList (trim before)
  | .unclosedFence _ _ => False

/-- The error says something of what stands in its column. -/
def PointsInto (raw : String) (n : Nat) (e : ParseError) : Prop :=
  ∃ rest, StandsFrom 1 raw.toList e.span.column rest ∧ PointsAt raw n rest e

variable {raw : String} {n column : Nat} {part rest : List Char} {e : ParseError}

theorem tokensOfEnd_eq (h : StandsFrom 1 raw.toList column part) : tokensOfEnd raw n part = tokens part n column := by
  obtain ⟨before, hraw, rfl⟩ := h
  have hcolumn : raw.toList.length - part.length + 1 = 1 + before.length := by
    rw [hraw, List.length_append]
    omega
  rw [tokensOfEnd, hcolumn]

theorem standsFrom_trimStart (cs : List Char) :
    StandsFrom 1 cs (cs.length - (trimStart cs).length + 1) (trimStart cs) := by
  have hcs : cs.takeWhile isBlank ++ trimStart cs = cs := List.takeWhile_append_dropWhile
  refine ⟨cs.takeWhile isBlank, hcs.symm, ?_⟩
  have hlength := congrArg List.length hcs
  rw [List.length_append] at hlength
  omega

theorem standsFrom_endSpan (text : List Char) (n column : Nat) :
    ∃ rest, StandsFrom column text (endSpan text n column).column rest ∧ ∀ c ∈ rest, isBlank c = true := by
  obtain ⟨run, hrun, hblank⟩ := dropEndWhile_append isBlank text
  exact ⟨run, ⟨trimEnd text, hrun.symm, rfl⟩, hblank⟩

theorem pointsInto_of_stuck (hpart : StandsFrom 1 raw.toList column part) (h : StuckIn n column part e) :
    PointsInto raw n e := by
  obtain ⟨-, rest, lexeme, hrest, hscan⟩ := h
  refine ⟨rest, hpart.trans hrest, ?_⟩
  unfold PointsAt
  rcases fault_of_scan hscan with ⟨kind, hfault | hfault, hopening⟩ | ⟨c, hfault, hc⟩
  · rw [hfault]
    exact hopening
  · rw [hfault]
    exact hopening
  · rw [hfault]
    exact hc

theorem pointsInto_of_misread (hcut : IsCut raw part) (hpart : StandsFrom 1 raw.toList column part)
    (h : Misread n column part e) : PointsInto raw n e := by
  cases h with
  | stuck h => exact pointsInto_of_stuck hpart h
  | complaint hts h =>
    cases h with
    | endOfLine what =>
      obtain ⟨rest, hrest, hblank⟩ := standsFrom_endSpan part n column
      exact ⟨rest, hpart.trans hrest, hblank⟩
    | @unexpected what t ht =>
      obtain ⟨-, rest, lexeme, after, hrest, hscan⟩ := (standsIn_tokensFrom n ⟨0, column⟩ part).2 _ hts t ht
      have htokens : tokensOfEnd raw n part = .ok _ := (tokensOfEnd_eq hpart).trans hts
      exact ⟨rest, hpart.trans hrest, part, _, hcut, htokens, t, ht, rfl, rfl, lexeme, after, hscan⟩

theorem pointsInto_of_misreadAttribute (hhas : StatesAttribute (trimStart raw.toList) rest)
    (hbody : StandsFrom 1 raw.toList column (trimStart raw.toList)) (h : MisreadAttribute rest n column e) :
    PointsInto raw n e := by
  have hrest : StandsFrom 1 raw.toList (column + 3) rest := by
    rw [hhas.1] at hbody
    exact hbody.trans (.append column ['h', 'a', 's'] rest)
  cases h with
  | noColon h =>
    subst h
    refine ⟨[], hrest.trans ⟨rest, by simp, ?_⟩, by simp [PointsAt]⟩
    simp [Nat.add_assoc]
  | @badName before value hsplit h =>
    subst h
    obtain ⟨rfl, hcolon⟩ := splitFirst_eq_some_iff.mp hsplit
    exact ⟨before ++ ':' :: value, hrest, before, value, rfl, hcolon, rfl⟩
  | @value before value hsplit h =>
    obtain ⟨rfl, hcolon⟩ := splitFirst_eq_some_iff.mp hsplit
    have hvalue := (hrest.trans (.append _ before _)).trans (.append _ [':'] value)
    exact pointsInto_of_misread (.value hhas hcolon) hvalue h

theorem pointsInto_of_parseChars (raw : String) (n : Nat) :
    FailsWith (PointsInto raw n) (parseChars raw.toList n) := by
  have hbody := standsFrom_trimStart raw.toList
  unfold parseChars
  simp only
  split
  · rename_i hempty
    rw [hempty] at hbody ⊢
    exact .error ⟨[], hbody, by simp [PointsAt]⟩
  · split
    · rename_i rest hhas
      exact (parseAttribute_fails rest n _).mono fun e =>
        pointsInto_of_misreadAttribute (afterHas?_eq_some_iff.mp hhas) hbody
    · rename_i hhas
      have hcut := IsCut.relation (afterHas?_eq_none_iff.mp hhas)
      exact (parseRelation_fails _ n _).mono fun e => pointsInto_of_misread hcut hbody

/-- An error bears the number of its line and the line itself, and its column is a place in that line, where what the
error tells of is found. -/
theorem pointsInto_of_parse (h : parse raw n = .error e) :
    e.span.line = n ∧ e.raw = raw ∧ 1 ≤ e.span.column ∧ e.span.column ≤ raw.toList.length + 1 ∧
      PointsInto raw n e := by
  obtain ⟨hline, hraw⟩ := error_of_parse h
  unfold parse at h
  split at h
  · cases h
  · rename_i e' he'
    cases h
    obtain ⟨rest, hrest, hpoints⟩ := pointsInto_of_parseChars raw n e' he'
    have hle := hrest.le
    exact ⟨hline, hraw, hle.1, Nat.add_comm _ 1 ▸ hle.2, rest, hrest, hpoints⟩

/-- Indented by a wide blank, with letters of several bytes: the modality stands in column 20, the star that is not
closed in column 16. -/
theorem pointsInto_worms :
    PointsInto "\u3000<frißt> **große** [öfter] Würmer" 7
      ⟨.unexpected .targetName .modality, ⟨20, 28, 7, 20⟩, "\u3000<frißt> **große** [öfter] Würmer"⟩ ∧
    PointsInto "\thas Flügel: 9 *ö" 8 ⟨.unterminated .star, ⟨3, 4, 8, 16⟩, "\thas Flügel: 9 *ö"⟩ :=
  ⟨(pointsInto_of_parse (by decide +kernel)).2.2.2.2, (pointsInto_of_parse (by decide +kernel)).2.2.2.2⟩

end Statement

end Morphology
