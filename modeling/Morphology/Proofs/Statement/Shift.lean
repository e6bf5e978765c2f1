import Morphology.Statement.Parse

/-! Lines read further down. A line is read as the same statement wherever it stands, or has the same fault at the
same column; only the number of the line is another. -/

namespace Morphology

def Span.shift (n : Nat) (s : Span) : Span := { s with line := s.line + n }

namespace ParseFault

/-- Only an unclosed fence is told with the numbers of lines. -/
def shift (n : Nat) : ParseFault → ParseFault
  | unclosedFence opened before => .unclosedFence (opened + n) (before + n)
  | fault => fault

end ParseFault

def ParseError.shift (n : Nat) (e : ParseError) : ParseError :=
  { e with fault := e.fault.shift n, span := e.span.shift n }

def Token.shift (n : Nat) (t : Token) : Token := { t with span := t.span.shift n }

/-- What is read further down is `move` of what is read here, and an error is the same error further down. -/
def Moved {α β : Type} (n : Nat) (move : α → β) (x : Except ParseError α) (y : Except ParseError β) : Prop :=
  y = (x.map move).mapError (ParseError.shift n)

namespace Moved

variable {α β γ δ : Type} {n : Nat} {move : α → β}

theorem ok (a : α) : Moved n move (.ok a) (.ok (move a)) := rfl

theorem error (e : ParseError) : Moved n move (.error e) (.error (e.shift n)) := rfl

theorem bind {move' : γ → δ} {x : Except ParseError α} {y : Except ParseError β} {f : α → Except ParseError γ}
    {f' : β → Except ParseError δ} (hx : Moved n move x y) (hf : ∀ a, Moved n move' (f a) (f' (move a))) :
    Moved n move' (x >>= f) (y >>= f') := by
  obtain rfl : y = _ := hx
  cases x with
  | ok a => exact hf a
  | error e => rfl

end Moved

namespace Token

theorem shift_of_scan {cs lexeme : List Char} {fault : ParseFault} (h : scan cs = .error (fault, lexeme)) (n : Nat) :
    fault.shift n = fault := by
  unfold scan at h
  split at h
  · split at h
    · cases h
      rfl
    · simp only at h
      split at h
      · cases h
        rfl
      · cases h
  · split at h <;> cases h <;> rfl

theorem moved_tokensFrom (line n : Nat) (place : Place) (cs : List Char) :
    Moved n (List.map (Token.shift n)) (tokensFrom line place cs) (tokensFrom (line + n) place cs) := by
  fun_induction tokensFrom line place cs with
  | case1 => rw [tokensFrom]; exact .ok []
  | case2 place c rest hblank ih => rw [tokensFrom, dif_pos hblank]; exact ih
  | case3 place c rest hblank fault lexeme hscan =>
    rw [tokensFrom, dif_neg hblank]
    split <;> rename_i hs <;> rw [hscan] at hs <;> cases hs
    show _ = Except.error (ParseError.mk (fault.shift n) _ _)
    rw [shift_of_scan hscan]
    rfl
  | case4 place c rest hblank kind text lexeme after hscan e htokens ih =>
    rw [htokens] at ih
    rw [tokensFrom, dif_neg hblank]
    split <;> rename_i hs <;> rw [hscan] at hs <;> cases hs
    rw [show tokensFrom (line + n) _ _ = _ from ih]
    exact .error e
  | case5 place c rest hblank kind text lexeme after hscan tokens htokens ih =>
    rw [htokens] at ih
    rw [tokensFrom, dif_neg hblank]
    split <;> rename_i hs <;> rw [hscan] at hs <;> cases hs
    rw [show tokensFrom (line + n) _ _ = _ from ih]
    exact .ok _

end Token

namespace Statement

open Token

variable {n : Nat} {ts : List Token} {stop : Span}

/-- The rest of the tokens, further down. -/
def shiftRest {α : Type} (n : Nat) (p : α × List Token) : α × List Token := (p.1, p.2.map (Token.shift n))

theorem take_shift (kind : TokenKind) (ts : List Token) :
    take kind (ts.map (Token.shift n)) = shiftRest n (take kind ts) := by
  cases ts with
  | nil => rfl
  | cons t ts =>
    unfold take shiftRest
    simp only [List.map_cons]
    show (if t.kind = kind then _ else _) = _
    split <;> rfl

theorem takeSubject_shift (ts : List Token) :
    takeSubject (ts.map (Token.shift n)) = shiftRest n (takeSubject ts) := by
  match ts with
  | [] => rfl
  | [_] => rfl
  | s :: t :: ts =>
    simp only [List.map_cons, takeSubject]
    show (if s.kind = .star ∧ (t.kind = .adverb ∨ t.kind = .name) then _ else _) = _
    split <;> rfl

theorem takeWords_shift (ts : List Token) : takeWords (ts.map (Token.shift n)) = shiftRest n (takeWords ts) := by
  induction ts with
  | nil => rfl
  | cons t ts ih =>
    rw [List.map_cons, takeWords, takeWords, ih]
    show (if t.kind = .word then _ else _) = _
    split <;> rfl

theorem expecting_shift (what : Expected) (stop : Span) (ts : List Token) :
    expecting what (stop.shift n) (ts.map (Token.shift n)) = (expecting what stop ts).shift n := by
  cases ts <;> rfl

theorem moved_expectName : Moved n (shiftRest n) (expectName stop ts)
    (expectName (stop.shift n) (ts.map (Token.shift n))) := by
  unfold expectName
  rw [take_shift, expecting_shift]
  obtain ⟨_ | name, rest⟩ := take .name ts
  · exact .error _
  · exact .ok _

theorem moved_expectWords (what : Expected) : Moved n (shiftRest n) (expectWords what stop ts)
    (expectWords what (stop.shift n) (ts.map (Token.shift n))) := by
  unfold expectWords
  rw [takeWords_shift]
  obtain ⟨_ | ⟨text, texts⟩, rest⟩ := takeWords ts
  · exact congrArg Except.error (expecting_shift what stop rest)
  · exact .ok _

theorem moved_expectEnd : Moved n id (expectEnd stop ts) (expectEnd (stop.shift n) (ts.map (Token.shift n))) := by
  cases ts with
  | nil => exact .ok ()
  | cons t ts => exact .error _

theorem moved_relationOf : Moved n id (relationOf ts stop) (relationOf (ts.map (Token.shift n)) (stop.shift n)) := by
  unfold relationOf
  simp only [takeSubject_shift, take_shift, shiftRest]
  refine moved_expectName.bind fun p => ?_
  simp only [take_shift, shiftRest]
  refine (moved_expectWords _).bind fun p => ?_
  simp only [take_shift, shiftRest]
  exact moved_expectEnd.bind fun _ => .ok _

theorem moved_attributeOf (name : String) :
    Moved n id (attributeOf name ts stop) (attributeOf name (ts.map (Token.shift n)) (stop.shift n)) := by
  unfold attributeOf
  simp only [take_shift, shiftRest]
  refine (moved_expectWords _).bind fun p => ?_
  simp only [take_shift, shiftRest]
  exact moved_expectEnd.bind fun _ => .ok _

theorem moved_parseRelation (body : List Char) (line column : Nat) :
    Moved n id (parseRelation body line column) (parseRelation body (line + n) column) :=
  (moved_tokensFrom line n _ body).bind fun _ => moved_relationOf.bind fun _ => .ok _

theorem moved_parseAttribute (rest : List Char) (line column : Nat) :
    Moved n id (parseAttribute rest line column) (parseAttribute rest (line + n) column) := by
  unfold parseAttribute
  cases Chars.splitFirst [':'] rest with
  | none => exact .error _
  | some p =>
    simp only
    split
    · exact .error _
    · exact (moved_tokensFrom line n _ p.2).bind fun _ => (moved_attributeOf _).bind fun _ => .ok _

theorem moved_parseChars (cs : List Char) (line : Nat) :
    Moved n id (parseChars cs line) (parseChars cs (line + n)) := by
  unfold parseChars
  simp only
  split
  · exact .error _
  · split
    · exact moved_parseAttribute _ _ _
    · exact moved_parseRelation _ _ _

/-- A line further down is read as the same statement, or has the same error further down. -/
theorem parse_shift (raw : String) (line n : Nat) :
    parse raw (line + n) = (parse raw line).mapError (ParseError.shift n) := by
  have hmoved : parseChars raw.toList (line + n) = ((parseChars raw.toList line).map id).mapError _ :=
    moved_parseChars (n := n) raw.toList line
  unfold parse
  rw [hmoved]
  cases parseChars raw.toList line <;> rfl

end Statement

end Morphology
