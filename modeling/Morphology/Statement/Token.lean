import Morphology.Statement.Error

/-! The tokens of a line. A delimited token reaches to the first closing delimiter and carries what is between
with its blanks collapsed; everything else that is not blank belongs to words. The lexemes and the
blanks between them make up the line. -/

namespace Morphology

structure Token where
  kind : TokenKind
  text : String
  span : Span
  deriving DecidableEq, Repr

/-- A position in a line: bytes before it in the text being read, and its column. -/
structure Place where
  byte : Nat
  column : Nat
  deriving DecidableEq, Repr

namespace Place

def utf8Length (cs : List Char) : Nat :=
  (String.ofList cs).utf8ByteSize

def after (place : Place) (cs : List Char) : Place :=
  ⟨place.byte + utf8Length cs, place.column + cs.length⟩

def span (place : Place) (line : Nat) (lexeme : List Char) : Span :=
  ⟨place.byte, (place.after lexeme).byte, line, place.column⟩

end Place

namespace Token

def isWordChar (c : Char) : Bool :=
  !Chars.isBlank c && c != '*' && c != '[' && c != ']' && c != '<' && c != '>'

/-- The kind of delimited token that starts here, and what follows its opening delimiter. -/
def opening? : List Char → Option (TokenKind × List Char)
  | '+' :: '+' :: cs => some (.adverb, cs)
  | '*' :: '*' :: cs => some (.qualifier, cs)
  | '*' :: cs => some (.star, cs)
  | '<' :: cs => some (.name, cs)
  | '[' :: cs => some (.modality, cs)
  | _ => none

/-- One token at the start of a text that does not start blank: its kind and text, its lexeme and what
follows. Where there is none, the fault and the characters it covers. -/
def scan (cs : List Char) : Except (ParseFault × List Char) (TokenKind × String × List Char × List Char) :=
  match opening? cs with
  | some (kind, rest) =>
    match Chars.splitFirst kind.closing rest with
    | none => .error (.unterminated kind, kind.opening)
    | some (body, after) =>
      let lexeme := kind.opening ++ body ++ kind.closing
      let text := Chars.collapse body
      if text = [] then .error (.emptyToken kind, lexeme)
      else .ok (kind, String.ofList text, lexeme, after)
  | none =>
    match cs with
    | '>' :: _ => .error (.strayCharacter '>', ['>'])
    | ']' :: _ => .error (.strayCharacter ']', [']'])
    | _ =>
      let word := cs.takeWhile isWordChar
      .ok (.word, String.ofList word, word, cs.dropWhile isWordChar)

theorem opening?_eq {cs rest : List Char} {kind : TokenKind} (h : opening? cs = some (kind, rest)) :
    cs = kind.opening ++ rest := by
  unfold opening? at h
  split at h <;> simp_all <;> obtain ⟨rfl, rfl⟩ := h <;> rfl

/-- The lexeme and the rest make up the text. -/
theorem scan_eq {cs lexeme rest : List Char} {kind : TokenKind} {text : String}
    (h : scan cs = .ok (kind, text, lexeme, rest)) : cs = lexeme ++ rest := by
  unfold scan at h
  split at h
  · rename_i k r hopen
    split at h
    · cases h
    · rename_i body after hsplit
      simp only at h
      split at h
      · cases h
      · simp only [Except.ok.injEq, Prod.mk.injEq] at h
        obtain ⟨rfl, rfl, rfl, rfl⟩ := h
        rw [opening?_eq hopen, Chars.splitFirst_eq hsplit]
        simp
  · split at h
    · cases h
    · cases h
    · simp only [Except.ok.injEq, Prod.mk.injEq] at h
      obtain ⟨rfl, rfl, rfl, rfl⟩ := h
      exact (List.takeWhile_append_dropWhile).symm

theorem isWordChar_of_opening?_none {c : Char} {cs : List Char} (hb : Chars.isBlank c = false)
    (h : opening? (c :: cs) = none) (h1 : c ≠ '>') (h2 : c ≠ ']') : isWordChar c = true := by
  have hstar : c ≠ '*' := by
    rintro rfl
    cases cs with
    | nil => simp [opening?] at h
    | cons d ds => by_cases hd : d = '*' <;> simp_all [opening?]
  have hlt : c ≠ '<' := by rintro rfl; simp [opening?] at h
  have hbr : c ≠ '[' := by rintro rfl; simp [opening?] at h
  simp [isWordChar, hb, h1, h2, hstar, hlt, hbr]

theorem lexeme_ne_nil {c : Char} {cs lexeme rest : List Char} {kind : TokenKind} {text : String}
    (hb : Chars.isBlank c = false) (h : scan (c :: cs) = .ok (kind, text, lexeme, rest)) :
    lexeme ≠ [] := by
  unfold scan at h
  split at h
  · rename_i k r hopen
    split at h
    · cases h
    · simp only at h
      split at h
      · cases h
      · simp only [Except.ok.injEq, Prod.mk.injEq] at h
        obtain ⟨rfl, -, rfl, -⟩ := h
        have hne : k.opening ≠ [] := by
          unfold opening? at hopen
          split at hopen <;> simp_all <;> obtain ⟨rfl, -⟩ := hopen <;> simp [TokenKind.opening]
        simp [hne]
  · rename_i hopen
    split at h
    · cases h
    · cases h
    · rename_i hgt hbr
      simp only [Except.ok.injEq, Prod.mk.injEq] at h
      obtain ⟨-, -, rfl, -⟩ := h
      have hw := isWordChar_of_opening?_none hb hopen
        (fun hc => hgt cs (by rw [hc])) (fun hc => hbr cs (by rw [hc]))
      simp [hw]

theorem length_scan_lt {c : Char} {cs lexeme rest : List Char} {kind : TokenKind} {text : String}
    (hb : Chars.isBlank c = false) (h : scan (c :: cs) = .ok (kind, text, lexeme, rest)) :
    rest.length < (c :: cs).length := by
  have hlen := congrArg List.length (scan_eq h)
  have hpos := List.length_pos_iff.mpr (lexeme_ne_nil hb h)
  simp at hlen ⊢
  omega

/-- The tokens of a text that starts at `place`. -/
def tokensFrom (line : Nat) (place : Place) (cs : List Char) : Except ParseError (List Token) :=
  match cs with
  | [] => .ok []
  | c :: rest =>
    if _ : Chars.isBlank c = true then tokensFrom line (place.after [c]) rest
    else
      match _ : scan (c :: rest) with
      | .error (fault, lexeme) => .error ⟨fault, place.span line lexeme, ""⟩
      | .ok (kind, text, lexeme, after) =>
        match tokensFrom line (place.after lexeme) after with
        | .error e => .error e
        | .ok tokens => .ok (⟨kind, text, place.span line lexeme⟩ :: tokens)
termination_by cs.length
decreasing_by
  · simp
  · exact length_scan_lt (by simpa using ‹¬Chars.isBlank c = true›) ‹scan (c :: rest) = _›

/-- The tokens of a text whose first character stands at `column` of its line. -/
def tokens (text : List Char) (line column : Nat) : Except ParseError (List Token) :=
  tokensFrom line ⟨0, column⟩ text

end Token

end Morphology
