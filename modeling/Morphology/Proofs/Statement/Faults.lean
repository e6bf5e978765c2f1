import Mathlib.Data.List.TakeWhile
import Morphology.Statement.Parse

/-! What can be wrong with a line, and where that is reported. Either the text gets stuck between two tokens, or the
tokens end too early, or one of them stands where something else is expected; all of that is told at the place where it
stands. Each error bears the number of the line and keeps the line as it was read; and a line without any text has
one. -/

namespace Morphology

/-- The errors that there may be have the property. -/
def FailsWith {α : Type} (P : ParseError → Prop) (x : Except ParseError α) : Prop := ∀ e, x = .error e → P e

namespace FailsWith

variable {α β : Type} {P Q : ParseError → Prop}

theorem ok (a : α) : FailsWith P (.ok a) := nofun

theorem error {e : ParseError} (h : P e) : FailsWith P (.error e : Except ParseError α) := by
  intro e' he'
  cases he'
  exact h

theorem bind {x : Except ParseError α} {f : α → Except ParseError β} (hx : FailsWith P x)
    (hf : ∀ a, x = .ok a → FailsWith P (f a)) : FailsWith P (x >>= f) := by
  cases x with
  | ok a => exact hf a rfl
  | error e => exact error (hx e rfl)

theorem mono {x : Except ParseError α} (hx : FailsWith P x) (h : ∀ e, P e → Q e) : FailsWith Q x :=
  fun e he => h e (hx e he)

end FailsWith

/-! ## Places in a line -/

/-- Of the text `cs`, whose first character stands in column `first`, `rest` is what stands from `column` on. -/
def StandsFrom (first : Nat) (cs : List Char) (column : Nat) (rest : List Char) : Prop :=
  ∃ before, cs = before ++ rest ∧ column = first + before.length

namespace StandsFrom

variable {first column column' : Nat} {cs rest rest' : List Char}

theorem refl (first : Nat) (cs : List Char) : StandsFrom first cs first cs := ⟨[], rfl, rfl⟩

theorem append (first : Nat) (before rest : List Char) :
    StandsFrom first (before ++ rest) (first + before.length) rest := ⟨before, rfl, rfl⟩

theorem trans (h : StandsFrom first cs column rest) (h' : StandsFrom column rest column' rest') :
    StandsFrom first cs column' rest' := by
  obtain ⟨before, rfl, rfl⟩ := h
  obtain ⟨between, rfl, rfl⟩ := h'
  exact ⟨before ++ between, by simp, by simp [Nat.add_assoc]⟩

theorem le (h : StandsFrom first cs column rest) : first ≤ column ∧ column ≤ first + cs.length := by
  obtain ⟨before, rfl, rfl⟩ := h
  simp

end StandsFrom

namespace Token

/-- The token is the one that is read where it stands. -/
def StandsIn (line first : Nat) (cs : List Char) (t : Token) : Prop :=
  t.span.line = line ∧ ∃ rest lexeme after, StandsFrom first cs t.span.column rest ∧
    scan rest = .ok (t.kind, t.text, lexeme, after)

/-- Where the error is reported there stands what makes no token. -/
def StuckIn (line first : Nat) (cs : List Char) (e : ParseError) : Prop :=
  e.span.line = line ∧ ∃ rest lexeme, StandsFrom first cs e.span.column rest ∧ scan rest = .error (e.fault, lexeme)

variable {line first column : Nat} {cs rest : List Char}

theorem StandsIn.later {t : Token} (h : StandsIn line column rest t) (hrest : StandsFrom first cs column rest) :
    StandsIn line first cs t := by
  obtain ⟨hline, rest', lexeme, after, hrest', hscan⟩ := h
  exact ⟨hline, rest', lexeme, after, hrest.trans hrest', hscan⟩

theorem StuckIn.later {e : ParseError} (h : StuckIn line column rest e) (hrest : StandsFrom first cs column rest) :
    StuckIn line first cs e := by
  obtain ⟨hline, rest', lexeme, hrest', hscan⟩ := h
  exact ⟨hline, rest', lexeme, hrest.trans hrest', hscan⟩

theorem standsIn_tokensFrom (line : Nat) (place : Place) (cs : List Char) :
    FailsWith (StuckIn line place.column cs) (tokensFrom line place cs) ∧
      ∀ ts, tokensFrom line place cs = .ok ts → ∀ t ∈ ts, StandsIn line place.column cs t := by
  fun_induction tokensFrom line place cs with
  | case1 =>
    refine ⟨.ok _, fun ts hts t ht => ?_⟩
    cases hts
    cases ht
  | case2 place c rest hblank ih =>
    have hrest := StandsFrom.append place.column [c] rest
    exact ⟨ih.1.mono fun e he => he.later hrest, fun ts hts t ht => (ih.2 ts hts t ht).later hrest⟩
  | case3 place c rest hblank fault lexeme hscan =>
    exact ⟨.error ⟨rfl, c :: rest, lexeme, .refl _ _, hscan⟩, nofun⟩
  | case4 place c rest hblank kind text lexeme after hscan e htokens ih =>
    have hafter := StandsFrom.append place.column lexeme after
    rw [← scan_eq hscan] at hafter
    exact ⟨.error ((ih.1 e htokens).later hafter), nofun⟩
  | case5 place c rest hblank kind text lexeme after hscan tokens htokens ih =>
    have hafter := StandsFrom.append place.column lexeme after
    rw [← scan_eq hscan] at hafter
    refine ⟨.ok _, fun ts hts t ht => ?_⟩
    cases hts
    rcases List.mem_cons.mp ht with rfl | ht
    · exact ⟨rfl, c :: rest, lexeme, after, .refl _ _, hscan⟩
    · exact (ih.2 tokens htokens t ht).later hafter

end Token

namespace Statement

/-! ## Tokens that are missing or misplaced -/

/-- The tokens end too early, or one of them stands where something else is expected. -/
inductive Complaint (stop : Span) (ts : List Token) : ParseError → Prop
  | endOfLine (what : Expected) : Complaint stop ts ⟨.endOfLine what, stop, ""⟩
  | unexpected (what : Expected) {t : Token} (ht : t ∈ ts) : Complaint stop ts ⟨.unexpected what t.kind, t.span, ""⟩

variable {ts rest : List Token} {stop : Span}

theorem take_suffix (kind : TokenKind) (ts : List Token) : (take kind ts).2 <:+ ts := by
  cases ts with
  | nil => exact List.suffix_rfl
  | cons t ts =>
    simp only [take]
    split
    · exact List.suffix_cons t ts
    · exact List.suffix_rfl

theorem takeSubject_suffix (ts : List Token) : (takeSubject ts).2 <:+ ts := by
  unfold takeSubject
  split
  · split
    · exact List.suffix_cons _ _
    · exact List.suffix_rfl
  · exact List.suffix_rfl

theorem takeWords_suffix (ts : List Token) : (takeWords ts).2 <:+ ts := by
  induction ts with
  | nil => exact List.suffix_rfl
  | cons t ts ih =>
    simp only [takeWords]
    split
    · exact ih.trans (List.suffix_cons t ts)
    · exact List.suffix_rfl

theorem complaint_expecting (what : Expected) (h : rest <:+ ts) : Complaint stop ts (expecting what stop rest) := by
  cases rest with
  | nil => exact .endOfLine what
  | cons t rest => exact .unexpected what (h.subset List.mem_cons_self)

theorem expectName_fails (h : rest <:+ ts) :
    FailsWith (Complaint stop ts) (expectName stop rest) ∧ ∀ p, expectName stop rest = .ok p → p.2 <:+ ts := by
  have hafter := (take_suffix .name rest).trans h
  unfold expectName
  split
  · rename_i name after htake
    rw [htake] at hafter
    refine ⟨.ok _, fun p hp => ?_⟩
    cases hp
    exact hafter
  · exact ⟨.error (complaint_expecting _ h), nofun⟩

theorem expectWords_fails (what : Expected) (h : rest <:+ ts) :
    FailsWith (Complaint stop ts) (expectWords what stop rest) ∧
      ∀ p, expectWords what stop rest = .ok p → p.2 <:+ ts := by
  have hafter := (takeWords_suffix rest).trans h
  unfold expectWords
  split
  · rename_i after htake
    rw [htake] at hafter
    exact ⟨.error (complaint_expecting what hafter), nofun⟩
  · rename_i texts after _ htake
    rw [htake] at hafter
    refine ⟨.ok _, fun p hp => ?_⟩
    cases hp
    exact hafter

theorem expectEnd_fails (h : rest <:+ ts) : FailsWith (Complaint stop ts) (expectEnd stop rest) := by
  cases rest with
  | nil => exact .ok ()
  | cons t rest => exact .error (complaint_expecting .endOfLine h)

theorem relationOf_fails (ts : List Token) (stop : Span) : FailsWith (Complaint stop ts) (relationOf ts stop) := by
  have h₁ := takeSubject_suffix ts
  have h₂ := (take_suffix .adverb _).trans h₁
  obtain ⟨hname, hafter⟩ := expectName_fails h₂
  refine hname.bind fun p hp => ?_
  have h₃ := (take_suffix .star _).trans (hafter p hp)
  have h₄ := (take_suffix .qualifier _).trans h₃
  obtain ⟨htarget, hafter⟩ := expectWords_fails .targetName h₄
  refine htarget.bind fun q hq => ?_
  have h₅ := (take_suffix .modality _).trans (hafter q hq)
  exact (expectEnd_fails h₅).bind fun _ _ => .ok _

theorem attributeOf_fails (name : String) (ts : List Token) (stop : Span) :
    FailsWith (Complaint stop ts) (attributeOf name ts stop) := by
  have h₁ := take_suffix .adverb ts
  obtain ⟨hvalue, hafter⟩ := expectWords_fails .attributeValue h₁
  refine hvalue.bind fun p hp => ?_
  have h₂ := (take_suffix .star _).trans (hafter p hp)
  have h₃ := (take_suffix .modality _).trans h₂
  exact (expectEnd_fails h₃).bind fun _ _ => .ok _

/-! ## Lines -/

/-- What is wrong with a text of tokens, whose first character stands in column `first`. -/
inductive Misread (line first : Nat) (text : List Char) (e : ParseError) : Prop
  | stuck (h : Token.StuckIn line first text e)
  | complaint {ts : List Token} (hts : Token.tokens text line first = .ok ts)
      (h : Complaint (endSpan text line first) ts e)

theorem line_of_misread {line first : Nat} {text : List Char} {e : ParseError} (h : Misread line first text e) :
    e.span.line = line := by
  cases h with
  | stuck h => exact h.1
  | complaint hts h =>
    cases h with
    | endOfLine what => rfl
    | unexpected what ht => exact ((Token.standsIn_tokensFrom line ⟨0, first⟩ text).2 _ hts _ ht).1

theorem parseRelation_fails (body : List Char) (line column : Nat) :
    FailsWith (Misread line column body) (parseRelation body line column) := by
  have htokens := (Token.standsIn_tokensFrom line ⟨0, column⟩ body).1
  refine FailsWith.bind (htokens.mono fun e => .stuck) fun ts hts => ?_
  have hrelation := relationOf_fails ts (endSpan body line column)
  exact (hrelation.mono fun e he => .complaint hts he).bind fun _ _ => .ok _

/-- What is wrong with the statement of an attribute whose `has` stands in column `column`. -/
inductive MisreadAttribute (rest : List Char) (line column : Nat) (e : ParseError) : Prop
  | noColon {n : Nat} (h : e = ⟨.endOfLine .colon, ⟨n, n, line, column + (3 + rest.length)⟩, ""⟩)
  | badName {before value : List Char} (hcut : Chars.splitFirst [':'] rest = some (before, value))
      (h : e = ⟨.badAttributeName (String.ofList (Chars.trim before)), ⟨3, 3, line, column + 3⟩, ""⟩)
  | value {before value : List Char} (hcut : Chars.splitFirst [':'] rest = some (before, value))
      (h : Misread line (column + 3 + before.length + 1) value e)

theorem parseAttribute_fails (rest : List Char) (line column : Nat) :
    FailsWith (MisreadAttribute rest line column) (parseAttribute rest line column) := by
  unfold parseAttribute
  simp only
  split
  · refine .error (.noColon (n := Place.utf8Length ('h' :: 'a' :: 's' :: rest)) ?_)
    simp [Place.span, Place.after, Place.utf8Length, Nat.add_comm 3]
  · rename_i before value hcut
    split
    · exact .error (.badName hcut rfl)
    · have htokens := (Token.standsIn_tokensFrom line ⟨0, column + 3 + before.length + 1⟩ value).1
      refine FailsWith.bind (htokens.mono fun e he => .value hcut (.stuck he)) fun ts hts => ?_
      have hvalue := attributeOf_fails (String.ofList (Chars.collapse before)) ts
        (endSpan value line (column + 3 + before.length + 1))
      exact (hvalue.mono fun e he => .value hcut (.complaint hts he)).bind fun _ _ => .ok _

theorem line_of_parseChars (cs : List Char) (line : Nat) :
    FailsWith (fun e => e.span.line = line) (parseChars cs line) := by
  unfold parseChars
  simp only
  split
  · exact .error rfl
  · split
    · refine (parseAttribute_fails _ line _).mono fun e he => ?_
      cases he with
      | noColon h => rw [h]
      | badName _ h => rw [h]
      | value _ h => exact line_of_misread h
    · exact (parseRelation_fails _ line _).mono fun e => line_of_misread

/-- An error bears the number of its line, and the line itself. -/
theorem error_of_parse {raw : String} {n : Nat} {e : ParseError} (h : parse raw n = .error e) :
    e.span.line = n ∧ e.raw = raw := by
  unfold parse at h
  split at h
  · cases h
  · rename_i e' he'
    cases h
    exact ⟨line_of_parseChars raw.toList n e' he', rfl⟩

/-- Nothing is stated where nothing is written. -/
theorem parse_of_isBlank {raw : String} (h : Text.isBlank raw = true) (n : Nat) (s : Statement) :
    parse raw n ≠ .ok s := by
  have hblank : ∀ c ∈ raw.toList, Chars.isBlank c = true := by simpa [Text.isBlank] using h
  have hempty : Chars.trimStart raw.toList = [] := List.dropWhile_eq_nil_iff.mpr hblank
  unfold parse parseChars
  simp [hempty]

end Statement

end Morphology
