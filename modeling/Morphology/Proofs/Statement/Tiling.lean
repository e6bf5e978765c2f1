import Morphology.Proofs.Statement.Faults
import Morphology.Proofs.Statement.Lexing

/-! Where the tokens of a line stand. Bytes and columns are counted side by side: of a text that is read from some place
on, each token covers a run of characters, none of them covers what another does, and only blanks are left over. -/

namespace Morphology

namespace Chars

/-- A character of two texts put together is one of either. -/
theorem append_eq_append_cons {front rest before after : List Char} {c : Char}
    (h : front ++ rest = before ++ c :: after) :
    (∃ between, front = before ++ c :: between) ∨ ∃ between, before = front ++ between ∧ rest = between ++ c :: after := by
  rcases List.append_eq_append_iff.mp h with ⟨between, hbefore, hrest⟩ | ⟨between, hfront, hafter⟩
  · exact .inr ⟨between, hbefore, hrest⟩
  · cases between with
    | nil => exact .inr ⟨[], by simpa using hfront.symm, by simpa using hafter.symm⟩
    | cons d between =>
      obtain ⟨rfl, -⟩ := List.cons.inj hafter
      exact .inl ⟨between, hfront⟩

end Chars

namespace Place

variable {cs : List Char}

theorem utf8Length_append (cs ds : List Char) : utf8Length (cs ++ ds) = utf8Length cs + utf8Length ds := by
  simp only [utf8Length, String.ofList_append, String.utf8ByteSize_append]

theorem utf8Length_pos (h : cs ≠ []) : 0 < utf8Length cs := by
  rw [utf8Length, Nat.pos_iff_ne_zero, ne_eq, String.utf8ByteSize_eq_zero_iff, ← String.toList_eq_nil_iff,
    String.toList_ofList]
  exact h

end Place

open Place (utf8Length)

def Span.Holds (s : Span) (byte : Nat) : Prop := s.start ≤ byte ∧ byte < s.stop

namespace Token

/-- The characters that make up a token: its delimiters around what its text was collapsed from, or the text itself. -/
def IsLexeme (t : Token) (lexeme : List Char) : Prop :=
  (t.kind = .word ∧ lexeme = t.text.toList) ∨
    (t.kind ≠ .word ∧ ∃ body, lexeme = t.kind.opening ++ body ++ t.kind.closing ∧ ¬t.kind.closing <:+: body ∧
      Chars.collapse body = t.text.toList)

/-- The token covers `lexeme`, and `before` is the part in front of it of the text that is read from `place` on. -/
structure Covers (line : Nat) (place : Place) (t : Token) (before lexeme : List Char) : Prop where
  start : t.span.start = place.byte + utf8Length before
  stop : t.span.stop = t.span.start + utf8Length lexeme
  nonempty : t.span.start < t.span.stop
  line : t.span.line = line
  column : t.span.column = place.column + before.length
  text : t.text ≠ ""
  lexeme : t.IsLexeme lexeme

/-- The tokens with the blanks between them are the text that is read from `place` on. -/
structure Tile (line : Nat) (place : Place) (cs : List Char) (ts : List Token) : Prop where
  covers : ∀ t ∈ ts, ∃ before lexeme after, cs = before ++ lexeme ++ after ∧ Covers line place t before lexeme
  ordered : ts.Pairwise fun t t' => t.span.stop ≤ t'.span.start
  blank : ∀ before c after, cs = before ++ c :: after →
    (∀ t ∈ ts, ¬t.span.Holds (place.byte + utf8Length before)) → Chars.isBlank c = true

variable {line : Nat} {place : Place} {cs front rest before lexeme : List Char} {t : Token} {ts : List Token}

theorem isLexeme_of_scan {kind : TokenKind} {text : String} (h : scan cs = .ok (kind, text, lexeme, rest)) (s : Span) :
    IsLexeme ⟨kind, text, s⟩ lexeme := by
  unfold scan at h
  split at h
  · rename_i kind' tail hopen
    obtain ⟨hword, hclosing⟩ := kind_of_opening hopen
    split at h
    · cases h
    · rename_i body after hsplit
      simp only at h
      split at h
      · cases h
      · cases h
        exact .inr ⟨hword, body, rfl, Chars.not_infix_of_splitFirst hclosing.1 hsplit, String.toList_ofList.symm⟩
  · split at h
    · cases h
    · cases h
    · cases h
      exact .inl ⟨rfl, String.toList_ofList.symm⟩

theorem covers_of_scan {c : Char} {kind : TokenKind} {text : String} (hc : Chars.isBlank c = false)
    (h : scan (c :: cs) = .ok (kind, text, lexeme, rest)) (line : Nat) (place : Place) :
    Covers line place ⟨kind, text, place.span line lexeme⟩ [] lexeme where
  start := rfl
  stop := rfl
  nonempty := Nat.lt_add_of_pos_right (Place.utf8Length_pos (lexeme_ne_nil hc h))
  line := rfl
  column := rfl
  text := by
    have hcarries := carries_of_scan hc h
    rintro rfl
    cases kind <;> exact hcarries.1 rfl
  lexeme := isLexeme_of_scan h _

theorem Covers.holds (h : Covers line place t before lexeme) {byte : Nat} :
    t.span.Holds byte ↔ place.byte + utf8Length before ≤ byte ∧ byte < place.byte + utf8Length (before ++ lexeme) := by
  rw [Span.Holds, h.stop, h.start, Place.utf8Length_append, Nat.add_assoc]

theorem Covers.later (h : Covers line (place.after front) t before lexeme) :
    Covers line place t (front ++ before) lexeme where
  start := by rw [h.start, Place.after, Place.utf8Length_append, Nat.add_assoc]
  stop := h.stop
  nonempty := h.nonempty
  line := h.line
  column := by rw [h.column, Place.after, List.length_append, Nat.add_assoc]
  text := h.text
  lexeme := h.lexeme

theorem Tile.nil (line : Nat) (place : Place) : Tile line place [] [] where
  covers := nofun
  ordered := .nil
  blank := by simp

/-- What is found behind some characters stands there in the whole text too. -/
theorem Tile.later_covers (h : Tile line (place.after front) rest ts) :
    ∀ t ∈ ts, ∃ before lexeme after, front ++ rest = before ++ lexeme ++ after ∧ Covers line place t before lexeme := by
  intro t ht
  obtain ⟨before, lexeme, after, rfl, hcovers⟩ := h.covers t ht
  exact ⟨front ++ before, lexeme, after, by simp, hcovers.later⟩

theorem Tile.later_blank (h : Tile line (place.after front) rest ts) {before after : List Char} {c : Char}
    (hcs : rest = before ++ c :: after) (hfree : ∀ t ∈ ts, ¬t.span.Holds (place.byte + utf8Length (front ++ before))) :
    Chars.isBlank c = true := by
  refine h.blank before c after hcs ?_
  rwa [Place.after, Nat.add_assoc, ← Place.utf8Length_append]

theorem Tile.skip (h : Tile line (place.after front) rest ts) (hfront : ∀ c ∈ front, Chars.isBlank c = true) :
    Tile line place (front ++ rest) ts where
  covers := h.later_covers
  ordered := h.ordered
  blank := by
    intro before c after hcs hfree
    rcases Chars.append_eq_append_cons hcs with ⟨between, rfl⟩ | ⟨between, rfl, hrest⟩
    · exact hfront c (by simp)
    · exact h.later_blank hrest hfree

theorem Tile.cons (h : Tile line (place.after lexeme) rest ts) (ht : Covers line place t [] lexeme) :
    Tile line place (lexeme ++ rest) (t :: ts) where
  covers := List.forall_mem_cons.mpr ⟨⟨[], lexeme, rest, rfl, ht⟩, h.later_covers⟩
  ordered := by
    refine List.pairwise_cons.mpr ⟨fun t' ht' => ?_, h.ordered⟩
    obtain ⟨before, lexeme', after, -, hcovers⟩ := h.covers t' ht'
    rw [ht.stop, ht.start, hcovers.start, Place.after]
    exact Nat.le_add_right _ _
  blank := by
    intro before c after hcs hfree
    obtain ⟨hfirst, hfree⟩ := List.forall_mem_cons.mp hfree
    rcases Chars.append_eq_append_cons hcs with ⟨between, rfl⟩ | ⟨between, rfl, hrest⟩
    · -- the character is one of the lexeme, so the token does hold its byte
      have hpos : 0 < utf8Length (c :: between) := Place.utf8Length_pos (List.cons_ne_nil c between)
      refine absurd (ht.holds.mpr ?_) hfirst
      rw [List.nil_append, Place.utf8Length_append]
      simp only [utf8Length, String.ofList_nil, String.utf8ByteSize_empty] at hpos ⊢
      omega
    · exact h.later_blank hrest hfree

theorem tile_tokensFrom (line : Nat) (place : Place) (cs : List Char) :
    ∀ ts, tokensFrom line place cs = .ok ts → Tile line place cs ts := by
  fun_induction tokensFrom line place cs with
  | case1 place =>
    rintro _ ⟨⟩
    exact .nil line place
  | case2 place c rest hblank ih =>
    intro ts hts
    have hfront : ∀ d ∈ [c], Chars.isBlank d = true := by simpa using hblank
    exact (ih ts hts).skip hfront
  | case3 => rintro _ ⟨⟩
  | case4 => rintro _ ⟨⟩
  | case5 place c rest hblank kind text lexeme after hscan tokens htokens ih =>
    rintro _ ⟨⟩
    rw [scan_eq hscan]
    exact (ih tokens htokens).cons (covers_of_scan (by simpa using hblank) hscan line place)

/-- The tokens of a text make it up but for blanks, each of them counted to its bytes and to its column; or the text gets
stuck where no token can be read. -/
theorem tokens_tile (text : List Char) (line column : Nat) :
    (∃ ts, tokens text line column = .ok ts ∧ Tile line ⟨0, column⟩ text ts) ∨
      ∃ e, tokens text line column = .error e ∧ StuckIn line column text e := by
  cases h : tokens text line column with
  | ok ts => exact .inl ⟨ts, rfl, tile_tokensFrom line ⟨0, column⟩ text ts h⟩
  | error e => exact .inr ⟨e, rfl, (standsIn_tokensFrom line ⟨0, column⟩ text).1 e h⟩

end Token

end Morphology
