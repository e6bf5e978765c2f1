import Morphology.Proofs.Text
import Morphology.Statement.Token

/-! Tokens apart from where they stand. `Carries` is what the text of a token is always like. Printed with single
spaces between them, such tokens are read again exactly when no text ends in the character of a closing
delimiter of two: there the delimiter would be found too early. -/

namespace Morphology

/-- What a token of this kind may have as its text. -/
def TokenKind.Carries : TokenKind → List Char → Prop
  | .word, text => text ≠ [] ∧ (∀ c ∈ text, Token.isWordChar c = true) ∧ ¬['+', '+'] <+: text
  | kind, text => text ≠ [] ∧ Chars.collapse text = text ∧ ¬kind.closing <:+: text

/-- The text stays apart from the closing delimiter behind it. -/
def TokenKind.EndsClear : TokenKind → List Char → Prop
  | .adverb, text => ¬['+'] <:+ text
  | .qualifier, text => ¬['*'] <:+ text
  | _, _ => True

namespace Token

open Chars

def content (t : Token) : TokenKind × List Char := (t.kind, t.text.toList)

def printed (p : TokenKind × List Char) : List Char := p.1.opening ++ p.2 ++ p.1.closing

/-- What the tokens of a text are, by kind and text. -/
inductive Lexes : List Char → List (TokenKind × List Char) → Prop
  | nil : Lexes [] []
  | blank {c cs ps} (hc : isBlank c = true) (h : Lexes cs ps) : Lexes (c :: cs) ps
  | token {c cs kind text lexeme rest ps} (hc : isBlank c = false)
    (hscan : scan (c :: cs) = .ok (kind, text, lexeme, rest)) (h : Lexes rest ps) :
    Lexes (c :: cs) ((kind, text.toList) :: ps)

theorem lexes_of_tokensFrom {line : Nat} {place : Place} {cs : List Char} {ts : List Token}
    (h : tokensFrom line place cs = .ok ts) : Lexes cs (ts.map content) := by
  fun_induction tokensFrom line place cs generalizing ts with
  | case1 =>
    cases h
    exact .nil
  | case2 place c rest hc ih => exact .blank hc (ih h)
  | case3 => cases h
  | case4 => cases h
  | case5 place c rest hc kind text lexeme after hscan tokens htokens ih =>
    cases h
    exact .token (by simpa using hc) hscan (ih htokens)

theorem tokensFrom_of_lexes {cs : List Char} {ps : List (TokenKind × List Char)} (h : Lexes cs ps)
    (line : Nat) (place : Place) : ∃ ts, tokensFrom line place cs = .ok ts ∧ ts.map content = ps := by
  induction h generalizing place with
  | nil => exact ⟨[], by rw [tokensFrom], rfl⟩
  | @blank c cs ps hc _ ih =>
    obtain ⟨ts, hts, hps⟩ := ih (place.after [c])
    exact ⟨ts, by rw [tokensFrom, dif_pos hc, hts], hps⟩
  | @token c cs kind text lexeme rest ps hc hscan _ ih =>
    obtain ⟨ts, hts, hps⟩ := ih (place.after lexeme)
    refine ⟨⟨kind, text, place.span line lexeme⟩ :: ts, ?_, by rw [List.map_cons, hps]; rfl⟩
    rw [tokensFrom, dif_neg (by simp [hc])]
    split
    · rename_i hs
      rw [hscan] at hs
      cases hs
    · rename_i hs
      rw [hscan] at hs
      cases hs
      rw [hts]

theorem lexes_blank {c : Char} {cs : List Char} {ps : List (TokenKind × List Char)} (hc : isBlank c = true) :
    Lexes (c :: cs) ps ↔ Lexes cs ps := by
  constructor
  · intro h
    cases h with
    | blank _ h => exact h
    | token hc' _ _ =>
      rw [hc] at hc'
      cases hc'
  · exact .blank hc

theorem scan_of_lexes {c : Char} {cs : List Char} {p : TokenKind × List Char}
    {ps : List (TokenKind × List Char)} (hc : isBlank c = false) (h : Lexes (c :: cs) (p :: ps)) :
    ∃ lexeme rest, scan (c :: cs) = .ok (p.1, String.ofList p.2, lexeme, rest) ∧ Lexes rest ps := by
  cases h with
  | blank hc' _ =>
    rw [hc] at hc'
    cases hc'
  | token _ hscan h => exact ⟨_, _, by simpa using hscan, h⟩

theorem kind_of_opening {cs rest : List Char} {kind : TokenKind} (h : opening? cs = some (kind, rest)) :
    kind ≠ .word ∧ IsWord kind.closing := by
  unfold opening? at h
  split at h <;> simp only [Option.some.injEq, Prod.mk.injEq, reduceCtorEq] at h <;> obtain ⟨rfl, -⟩ := h <;>
    exact ⟨by decide, by decide, by simp [TokenKind.closing, isBlank]⟩

theorem carries_of_scan {c : Char} {cs lexeme rest : List Char} {kind : TokenKind} {text : String}
    (hc : isBlank c = false) (h : scan (c :: cs) = .ok (kind, text, lexeme, rest)) :
    kind.Carries text.toList := by
  unfold scan at h
  split at h
  · rename_i k tail hopen
    split at h
    · cases h
    · rename_i body after hsplit
      simp only at h
      split at h
      · cases h
      · rename_i hne
        simp only [Except.ok.injEq, Prod.mk.injEq] at h
        obtain ⟨rfl, rfl, -, -⟩ := h
        rw [String.toList_ofList]
        obtain ⟨hword, hclosing⟩ := kind_of_opening hopen
        have hinner : ¬k.closing <:+: collapse body := fun hin =>
          not_infix_of_splitFirst hclosing.1 hsplit (infix_of_infix_collapse hclosing hin)
        cases k with
        | word => exact absurd rfl hword
        | _ => exact ⟨hne, collapse_collapse body, hinner⟩
  · rename_i hopen
    split at h
    · cases h
    · cases h
    · rename_i hgt hbr
      simp only [Except.ok.injEq, Prod.mk.injEq] at h
      obtain ⟨rfl, rfl, -, -⟩ := h
      rw [String.toList_ofList]
      have hw := isWordChar_of_opening?_none hc hopen
        (fun hc => hgt cs (by rw [hc])) (fun hc => hbr cs (by rw [hc]))
      refine ⟨by simp [hw], List.all_eq_true.mp List.all_takeWhile, fun hpre => ?_⟩
      obtain ⟨tail, htail⟩ := hpre.trans (List.takeWhile_prefix _)
      rw [← htail] at hopen
      simp [opening?] at hopen

theorem carries_of_lexes {cs : List Char} {ps : List (TokenKind × List Char)} (h : Lexes cs ps) :
    ∀ p ∈ ps, p.1.Carries p.2 := by
  induction h with
  | nil => simp
  | blank _ _ ih => exact ih
  | token hc hscan _ ih =>
    intro p hp
    rcases List.mem_cons.mp hp with rfl | hp
    · exact carries_of_scan hc hscan
    · exact ih p hp

theorem isWord_of_carries {w : List Char} (h : TokenKind.word.Carries w) : IsWord w := by
  refine ⟨h.1, fun c hc => ?_⟩
  have hw := h.2.1 c hc
  simp only [isWordChar, Bool.and_eq_true, Bool.not_eq_true'] at hw
  exact hw.1.1.1.1.1

theorem opening?_word {w rest : List Char} (h : TokenKind.word.Carries w) (hrest : ∀ c ∈ rest.head?, isBlank c = true) :
    opening? (w ++ rest) = none := by
  obtain ⟨hne, hchars, hplus⟩ := h
  cases w with
  | nil => exact absurd rfl hne
  | cons c w =>
    have hc := hchars c List.mem_cons_self
    unfold opening?
    split
    · rename_i heq
      cases w with
      | nil =>
        obtain ⟨rfl, rfl⟩ := List.cons.inj heq
        exact absurd (hrest '+' rfl) (by decide)
      | cons d w =>
        simp only [List.cons_append, List.cons.injEq] at heq
        obtain ⟨rfl, rfl, -⟩ := heq
        exact absurd ⟨w, rfl⟩ hplus
    all_goals first
      | rfl
      | rename_i heq
        obtain ⟨rfl, -⟩ := List.cons.inj heq
        exact absurd hc (by decide)

theorem scan_word {w rest : List Char} (h : TokenKind.word.Carries w) (hrest : ∀ c ∈ rest.head?, isBlank c = true) :
    scan (w ++ rest) = .ok (.word, String.ofList w, w, rest) := by
  have hopen := opening?_word h hrest
  obtain ⟨hne, hchars, -⟩ := h
  have hstop : rest.takeWhile isWordChar = [] ∧ rest.dropWhile isWordChar = rest := by
    cases rest with
    | nil => exact ⟨rfl, rfl⟩
    | cons c rest =>
      have hc : isWordChar c = false := by simp [isWordChar, hrest c rfl]
      exact ⟨by simp [hc], by simp [hc]⟩
  cases w with
  | nil => exact absurd rfl hne
  | cons c w =>
    have hc := hchars c List.mem_cons_self
    unfold scan
    simp only [hopen]
    split
    · rename_i heq
      obtain ⟨rfl, -⟩ := List.cons.inj heq
      exact absurd hc (by decide)
    · rename_i heq
      obtain ⟨rfl, -⟩ := List.cons.inj heq
      exact absurd hc (by decide)
    · rw [List.takeWhile_append_of_pos hchars, List.dropWhile_append_of_pos hchars, hstop.1, hstop.2,
        List.append_nil]

theorem opening?_delimited {kind : TokenKind} {text : List Char} (rest : List Char) (hkind : kind ≠ .word)
    (h : kind.Carries text) : opening? (kind.opening ++ (text ++ rest)) = some (kind, text ++ rest) := by
  cases kind with
  | word => exact absurd rfl hkind
  | star =>
    obtain ⟨hne, -, hstar⟩ := h
    cases text with
    | nil => exact absurd rfl hne
    | cons c text =>
      have hc : c ≠ '*' := by
        rintro rfl
        exact hstar ⟨[], text, rfl⟩
      simp [TokenKind.opening, opening?, hc]
  | _ => rfl

/-- A text that stays apart from the closing delimiter is cut off right before it. -/
theorem splitFirst_closing {kind : TokenKind} {text : List Char} (rest : List Char) (hkind : kind ≠ .word)
    (h : kind.Carries text) (hend : kind.EndsClear text) :
    splitFirst kind.closing (text ++ kind.closing ++ rest) = some (text, rest) := by
  have hnot {c : Char} (hin : ¬[c] <:+: text) : c ∉ text := fun hc => hin ((List.singleton_infix_iff c text).mpr hc)
  rw [List.append_assoc]
  cases kind with
  | word => exact absurd rfl hkind
  | adverb => exact splitFirst_pair h.2.2 hend
  | qualifier => exact splitFirst_pair h.2.2 hend
  | star => exact splitFirst_single (hnot h.2.2)
  | name => exact splitFirst_single (hnot h.2.2)
  | modality => exact splitFirst_single (hnot h.2.2)

/-- A text that runs into the closing delimiter is cut off too early, and what is left of it is shorter. -/
theorem collapse_ne_of_not_endsClear {kind : TokenKind} {text rest before after : List Char}
    (hend : ¬kind.EndsClear text)
    (h : splitFirst kind.closing (text ++ kind.closing ++ rest) = some (before, after)) :
    collapse before ≠ text := by
  intro heq
  have hle := length_collapse_le before
  rw [heq] at hle
  have hshort {c : Char} (hc : kind.closing = [c, c]) (hsuffix : [c] <:+ text) : before.length < text.length := by
    obtain ⟨init, rfl⟩ := hsuffix
    have hcut : init ++ [c] ++ kind.closing ++ rest = init ++ kind.closing ++ (c :: rest) := by simp [hc]
    rw [hcut] at h
    have := length_splitFirst_le h
    simp only [List.length_append, List.length_singleton]
    omega
  cases kind with
  | adverb =>
    have := hshort rfl (Classical.not_not.mp hend)
    omega
  | qualifier =>
    have := hshort rfl (Classical.not_not.mp hend)
    omega
  | _ => exact hend trivial

theorem scan_delimited {kind : TokenKind} {text rest : List Char} (hkind : kind ≠ .word) (h : kind.Carries text)
    (hend : kind.EndsClear text) :
    scan (printed (kind, text) ++ rest) = .ok (kind, String.ofList text, printed (kind, text), rest) := by
  have hopen := opening?_delimited (kind.closing ++ rest) hkind h
  have hsplit := splitFirst_closing rest hkind h hend
  have htext : collapse text = text ∧ text ≠ [] := by
    cases kind with
    | word => exact absurd rfl hkind
    | _ => exact ⟨h.2.1, h.1⟩
  rw [List.append_assoc] at hsplit
  unfold scan
  simp only [printed, List.append_assoc, hopen, hsplit, htext.1, htext.2, if_false]

theorem scan_printed {p : TokenKind × List Char} {rest : List Char} (h : p.1.Carries p.2)
    (hend : p.1.EndsClear p.2) (hrest : ∀ c ∈ rest.head?, isBlank c = true) :
    scan (printed p ++ rest) = .ok (p.1, String.ofList p.2, printed p, rest) := by
  obtain ⟨kind, text⟩ := p
  by_cases hkind : kind = .word
  · subst hkind
    simpa [printed, TokenKind.opening, TokenKind.closing] using scan_word h hrest
  · exact scan_delimited hkind h hend

theorem endsClear_of_scan {p : TokenKind × List Char} {rest lexeme after : List Char} (h : p.1.Carries p.2)
    (hscan : scan (printed p ++ rest) = .ok (p.1, String.ofList p.2, lexeme, after)) : p.1.EndsClear p.2 := by
  obtain ⟨kind, text⟩ := p
  by_contra hend
  have hkind : kind ≠ .word := by
    rintro rfl
    exact hend trivial
  have hopen := opening?_delimited (kind.closing ++ rest) hkind h
  obtain ⟨before, tail, hsplit⟩ := splitFirst_isSome kind.closing text rest
  have hne := collapse_ne_of_not_endsClear hend hsplit
  rw [List.append_assoc] at hsplit
  unfold scan at hscan
  simp only [printed, List.append_assoc, hopen, hsplit] at hscan
  split at hscan
  · cases hscan
  · simp only [Except.ok.injEq, Prod.mk.injEq, true_and] at hscan
    exact hne (String.ofList_injective hscan.1)

theorem printed_head {p : TokenKind × List Char} (h : p.1.Carries p.2) :
    ∃ c cs, printed p = c :: cs ∧ isBlank c = false := by
  obtain ⟨kind, text⟩ := p
  cases kind with
  | word =>
    obtain ⟨hne, hblank⟩ := isWord_of_carries h
    cases text with
    | nil => exact absurd rfl hne
    | cons c text =>
      exact ⟨c, text, by simp [printed, TokenKind.opening, TokenKind.closing], hblank c List.mem_cons_self⟩
  | _ => exact ⟨_, _, rfl, by decide⟩

theorem lexes_printed_append {p : TokenKind × List Char} {ps : List (TokenKind × List Char)} {rest : List Char}
    (h : p.1.Carries p.2) (hrest : ∀ c ∈ rest.head?, isBlank c = true) :
    Lexes (printed p ++ rest) (p :: ps) ↔ p.1.EndsClear p.2 ∧ Lexes rest ps := by
  obtain ⟨c, cs, hp, hc⟩ := printed_head h
  constructor
  · intro hl
    rw [hp, List.cons_append] at hl
    obtain ⟨lexeme, after, hscan, hl⟩ := scan_of_lexes hc hl
    rw [← List.cons_append, ← hp] at hscan
    have hend := endsClear_of_scan h hscan
    rw [scan_printed h hend hrest] at hscan
    cases hscan
    exact ⟨hend, hl⟩
  · rintro ⟨hend, hl⟩
    have hscan := scan_printed h hend hrest
    rw [hp, List.cons_append] at hscan ⊢
    have ht := Lexes.token hc hscan hl
    rwa [String.toList_ofList] at ht

/-- Tokens printed with single spaces between them are read again exactly when each stays apart from its closing
delimiter. -/
theorem lexes_printed_iff {ps : List (TokenKind × List Char)} (h : ∀ p ∈ ps, p.1.Carries p.2) :
    Lexes ([' '].intercalate (ps.map printed)) ps ↔ ∀ p ∈ ps, p.1.EndsClear p.2 := by
  induction ps with
  | nil => exact ⟨fun _ p hp => absurd hp List.not_mem_nil, fun _ => .nil⟩
  | cons p ps ih =>
    have hp := h p List.mem_cons_self
    have ih := ih fun q hq => h q (List.mem_cons_of_mem _ hq)
    rw [List.forall_mem_cons]
    cases ps with
    | nil =>
      have hl : Lexes (printed p ++ []) [p] ↔ p.1.EndsClear p.2 ∧ Lexes [] [] :=
        lexes_printed_append hp (by simp)
      simpa [Lexes.nil] using hl
    | cons q ps =>
      rw [List.map_cons, List.map_cons, List.intercalate_cons_cons, List.append_assoc, List.singleton_append,
        lexes_printed_append hp (by rintro c ⟨⟩; decide), lexes_blank (by decide)]
      exact and_congr_right fun _ => ih

end Token

end Morphology
