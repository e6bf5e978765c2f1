import Mathlib.Data.List.Infix
import Morphology.Text.Fold
import Morphology.Text.Split

/-! Words and separators. Collapsing keeps the words of a text and nothing else, so it is settled after one time
and brings together no two characters that were apart; a text is cut at the first place where the separator
stands, and blanks around it are no part of it. Small letters and digits stay as they are when letters are made small. -/

namespace Morphology.Chars

variable {p : Char → Bool} {c d : Char} {cs w part a b : List Char} {ws : List (List Char)}

theorem pieces_eq_singleton (h : ∀ c ∈ w, p c = false) : pieces p w = [w] := by
  induction w with
  | nil => rfl
  | cons c w ih =>
    have hc : p c = false := h c List.mem_cons_self
    have ih := ih fun d hd => h d (List.mem_cons_of_mem _ hd)
    simp [pieces, hc, ih]

theorem pieces_append_cons (h : ∀ c ∈ w, p c = false) (hc : p c = true) :
    pieces p (w ++ c :: cs) = w :: pieces p cs := by
  induction w with
  | nil => simp [pieces, hc]
  | cons d w ih =>
    have hd : p d = false := h d List.mem_cons_self
    have ih := ih fun e he => h e (List.mem_cons_of_mem _ he)
    simp [pieces, hd, ih]

/-- Parts without separators come back when they are put together and cut again. -/
theorem pieces_intercalate (hc : p c = true) {parts : List (List Char)} (hne : parts ≠ [])
    (h : ∀ part ∈ parts, ∀ d ∈ part, p d = false) : pieces p ([c].intercalate parts) = parts := by
  induction parts with
  | nil => cases hne rfl
  | cons part parts ih =>
    have hpart := h part List.mem_cons_self
    cases parts with
    | nil => simpa [List.intercalate] using pieces_eq_singleton hpart
    | cons part' parts =>
      have ih := ih (List.cons_ne_nil _ _) fun w hw => h w (List.mem_cons_of_mem _ hw)
      have hsplit : [c].intercalate (part :: part' :: parts) = part ++ c :: [c].intercalate (part' :: parts) := by
        simp [List.intercalate]
      rw [hsplit, pieces_append_cons hpart hc, ih]

theorem pieces_prefix (p : Char → Bool) (cs : List Char) :
    ∃ first rest, pieces p cs = first :: rest ∧ first <+: cs ∧ (∀ c ∈ first, p c = false) ∧
      ∀ part ∈ rest, part <:+: cs ∧ ∀ c ∈ part, p c = false := by
  induction cs with
  | nil => exact ⟨[], [], rfl, List.prefix_rfl, by simp, by simp⟩
  | cons c cs ih =>
    obtain ⟨first, rest, hp, hpre, hfirst, hrest⟩ := ih
    have hlonger {part} (h : part <:+: cs) : part <:+: c :: cs := h.trans (List.suffix_cons c cs).isInfix
    by_cases hc : p c = true
    · refine ⟨[], first :: rest, by simp [pieces, hc, hp], List.nil_prefix, by simp, ?_⟩
      intro part hpart
      rcases List.mem_cons.mp hpart with rfl | hpart
      · exact ⟨hlonger hpre.isInfix, hfirst⟩
      · exact ⟨hlonger (hrest part hpart).1, (hrest part hpart).2⟩
    · refine ⟨c :: first, rest, by simp [pieces, hc, hp], (List.cons_prefix_cons.mpr ⟨rfl, hpre⟩), ?_, ?_⟩
      · intro d hd
        rcases List.mem_cons.mp hd with rfl | hd
        · simpa using hc
        · exact hfirst d hd
      · intro part hpart
        exact ⟨hlonger (hrest part hpart).1, (hrest part hpart).2⟩

theorem mem_pieces (h : part ∈ pieces p cs) : part <:+: cs ∧ ∀ c ∈ part, p c = false := by
  obtain ⟨first, rest, hp, hpre, hfirst, hrest⟩ := pieces_prefix p cs
  rw [hp] at h
  rcases List.mem_cons.mp h with rfl | h
  · exact ⟨hpre.isInfix, hfirst⟩
  · exact hrest part h

theorem length_intercalate_pieces (p : Char → Bool) (cs : List Char) :
    ([' '].intercalate (pieces p cs)).length = cs.length := by
  induction cs with
  | nil => rfl
  | cons c cs ih =>
    obtain ⟨first, rest, hp, -⟩ := pieces_prefix p cs
    rw [hp] at ih
    by_cases hc : p c = true
    · simp [pieces, hc, hp, List.intercalate_cons_cons, ih]
    · cases rest with
      | nil => simpa [pieces, hc, hp] using ih
      | cons part rest =>
        simp only [pieces, hc, hp, Bool.false_eq_true, if_false, List.intercalate_cons_cons, List.length_append,
          List.length_cons] at ih ⊢
        omega

def IsWord (w : List Char) : Prop := w ≠ [] ∧ ∀ c ∈ w, isBlank c = false

theorem mem_words (h : w ∈ words cs) : w <:+: cs ∧ IsWord w := by
  obtain ⟨hin, hne⟩ := List.mem_filter.mp h
  obtain ⟨hpart, hblank⟩ := mem_pieces hin
  exact ⟨hpart, by simpa using hne, hblank⟩

theorem words_intercalate (h : ∀ w ∈ ws, IsWord w) : words ([' '].intercalate ws) = ws := by
  induction ws with
  | nil => rfl
  | cons w ws ih =>
    obtain ⟨hne, hblank⟩ := h w List.mem_cons_self
    have ih := ih fun v hv => h v (List.mem_cons_of_mem _ hv)
    cases ws with
    | nil => simp [words, pieces_eq_singleton hblank, hne]
    | cons v ws =>
      rw [List.intercalate_cons_cons, List.append_assoc, List.singleton_append]
      have hp : pieces isBlank (w ++ ' ' :: [' '].intercalate (v :: ws)) =
          w :: pieces isBlank ([' '].intercalate (v :: ws)) := pieces_append_cons hblank (by decide)
      unfold words at ih ⊢
      rw [hp, List.filter_cons_of_pos (by simpa using hne), ih]

theorem collapse_cons_blank (hc : isBlank c = true) : collapse (c :: cs) = collapse cs := by
  simp [collapse, words, pieces, hc]

theorem collapse_collapse (cs : List Char) : collapse (collapse cs) = collapse cs := by
  unfold collapse
  rw [words_intercalate fun _ hw => (mem_words hw).2]

theorem collapse_intercalate (h : ∀ w ∈ ws, IsWord w) :
    collapse ([' '].intercalate ws) = [' '].intercalate ws := by
  unfold collapse
  rw [words_intercalate h]

theorem intercalate_append {sep : List Char} {vs : List (List Char)} (hw : ws ≠ []) (hv : vs ≠ []) :
    sep.intercalate (ws ++ vs) = sep.intercalate ws ++ sep ++ sep.intercalate vs := by
  induction ws with
  | nil => exact absurd rfl hw
  | cons w ws ih =>
    cases ws with
    | nil => simp [List.intercalate_cons_of_ne_nil hv]
    | cons u ws =>
      rw [List.cons_append, List.intercalate_cons_of_ne_nil (by simp), ih (by simp), List.intercalate_cons_cons]
      simp only [List.append_assoc]

/-- Parts that are joined already may be joined with the others in one go. -/
theorem intercalate_append_intercalate {sep : List Char} (hw : ws ≠ []) (us vs : List (List Char)) :
    sep.intercalate (us ++ sep.intercalate ws :: vs) = sep.intercalate (us ++ (ws ++ vs)) := by
  induction us with
  | nil =>
    cases vs with
    | nil => simp
    | cons v vs => rw [List.nil_append, List.nil_append, List.intercalate_cons_cons, intercalate_append hw (by simp)]
  | cons u us ih =>
    rw [List.cons_append, List.cons_append, List.intercalate_cons_of_ne_nil (by simp),
      List.intercalate_cons_of_ne_nil (by simp [hw]), ih]

theorem length_intercalate_cons_le (sep w : List Char) (ws : List (List Char)) :
    (sep.intercalate ws).length ≤ (sep.intercalate (w :: ws)).length := by
  cases ws with
  | nil => simp
  | cons v ws =>
    rw [List.intercalate_cons_cons, List.length_append]
    exact Nat.le_add_left _ _

theorem length_intercalate_le {sep : List Char} {us ws : List (List Char)} (h : us.Sublist ws) :
    (sep.intercalate us).length ≤ (sep.intercalate ws).length := by
  induction h with
  | slnil => exact Nat.le_refl _
  | cons w _ ih => exact ih.trans (length_intercalate_cons_le sep w _)
  | @cons_cons us ws w h ih =>
    cases us with
    | nil =>
      cases ws with
      | nil => exact Nat.le_refl _
      | cons v ws => simp [List.intercalate_cons_cons]
    | cons u us =>
      cases ws with
      | nil => cases h
      | cons v ws =>
        simp only [List.intercalate_cons_cons, List.length_append]
        omega

theorem length_collapse_le (cs : List Char) : (collapse cs).length ≤ cs.length := by
  calc (collapse cs).length ≤ ([' '].intercalate (pieces isBlank cs)).length :=
        length_intercalate_le List.filter_sublist
    _ = cs.length := length_intercalate_pieces isBlank cs

/-- What does not contain a character stands on one side of it. -/
theorem infix_append_cons {sep a b : List Char} (hc : c ∉ sep) (h : sep <:+: a ++ c :: b) :
    sep <:+: a ∨ sep <:+: b := by
  obtain ⟨x, y, h⟩ := h
  rw [List.append_assoc] at h
  rcases List.append_eq_append_iff.mp h with ⟨z, rfl, hz⟩ | ⟨z, rfl, hz⟩
  · rcases List.append_eq_append_iff.mp hz with ⟨u, rfl, -⟩ | ⟨u, rfl, hu⟩
    · exact Or.inl ⟨x, u, by simp⟩
    · cases u with
      | nil => exact Or.inl ⟨x, [], by simp⟩
      | cons d u =>
        simp only [List.cons_append, List.cons.injEq] at hu
        exact absurd (by simp [hu.1]) hc
  · cases z with
    | nil =>
      simp only [List.nil_append] at hz
      cases sep with
      | nil => exact Or.inl List.nil_infix
      | cons d sep =>
        simp only [List.cons_append, List.cons.injEq] at hz
        exact absurd (by simp [hz.1]) hc
    | cons d z =>
      simp only [List.cons_append, List.cons.injEq] at hz
      exact Or.inr ⟨z, y, by rw [hz.2, List.append_assoc]⟩

theorem infix_intercalate {sep : List Char} (hne : sep ≠ []) (hc : c ∉ sep)
    (h : sep <:+: [c].intercalate ws) : ∃ w ∈ ws, sep <:+: w := by
  induction ws with
  | nil =>
    rw [List.intercalate_nil, List.infix_nil] at h
    exact absurd h hne
  | cons w ws ih =>
    cases ws with
    | nil => exact ⟨w, List.mem_cons_self, by simpa using h⟩
    | cons v ws =>
      rw [List.intercalate_cons_cons, List.append_assoc, List.singleton_append] at h
      rcases infix_append_cons hc h with h | h
      · exact ⟨w, List.mem_cons_self, h⟩
      · obtain ⟨u, hu, h⟩ := ih h
        exact ⟨u, List.mem_cons_of_mem _ hu, h⟩

theorem mem_intercalate (hne : c ≠ d) (h : c ∈ [d].intercalate ws) : ∃ w ∈ ws, c ∈ w := by
  have hin : [c] <:+: [d].intercalate ws := (List.singleton_infix_iff c _).mpr h
  obtain ⟨w, hw, hcw⟩ := infix_intercalate (by simp) (by simpa using hne.symm) hin
  exact ⟨w, hw, (List.singleton_infix_iff c w).mp hcw⟩

theorem infix_of_infix_collapse {sep : List Char} (hsep : IsWord sep) (h : sep <:+: collapse cs) :
    sep <:+: cs := by
  have hspace : ' ' ∉ sep := fun hin => absurd (hsep.2 ' ' hin) (by decide)
  obtain ⟨w, hw, h⟩ := infix_intercalate hsep.1 hspace h
  exact h.trans (mem_words hw).1

theorem mem_of_mem_collapse (hc : isBlank c = false) (h : c ∈ collapse cs) : c ∈ cs := by
  have hne : c ≠ ' ' := by
    rintro rfl
    cases hc
  obtain ⟨w, hw, hcw⟩ := mem_intercalate hne h
  exact (mem_words hw).1.subset hcw

theorem pieces_append_cons_of_pos (a b : List Char) (hc : p c = true) :
    pieces p (a ++ c :: b) = pieces p a ++ pieces p b := by
  induction a with
  | nil => simp [pieces, hc]
  | cons d a ih =>
    obtain ⟨first, rest, ha, -⟩ := pieces_prefix p a
    by_cases hd : p d = true <;> simp [pieces, hd, ih, ha]

theorem words_append_cons (a b : List Char) (hc : isBlank c = true) : words (a ++ c :: b) = words a ++ words b := by
  rw [words, pieces_append_cons_of_pos a b hc, List.filter_append]
  rfl

theorem words_ne_nil (hc : isBlank c = false) (cs : List Char) : words (c :: cs) ≠ [] := by
  obtain ⟨first, rest, hp, -⟩ := pieces_prefix isBlank cs
  simp [words, pieces, hc, hp]

theorem isBlank_of_words_eq_nil (h : words cs = []) : ∀ c ∈ cs, isBlank c = true := by
  induction cs with
  | nil => simp
  | cons c cs ih =>
    by_cases hc : isBlank c = true
    · have hcs : words cs = [] := by simpa [words, pieces, hc] using h
      exact List.forall_mem_cons.mpr ⟨hc, ih hcs⟩
    · exact absurd h (words_ne_nil (by simpa using hc) cs)

/-- Behind a blank there is a word, if the text does not end blank. -/
theorem words_ne_nil_of_getLast (hc : isBlank c = true) (h : ∀ d ∈ (a ++ c :: b).getLast?, isBlank d = false) :
    words b ≠ [] := by
  intro hempty
  obtain ⟨d, hd⟩ : ∃ d, (c :: b).getLast? = some d := ⟨_, List.getLast?_eq_some_getLast (List.cons_ne_nil c b)⟩
  have hblank : isBlank d = true := by
    rcases List.mem_cons.mp (List.mem_of_getLast? hd) with rfl | hin
    · exact hc
    · exact isBlank_of_words_eq_nil hempty d hin
  rw [h d (by simpa using hd)] at hblank
  cases hblank

theorem words_of_isWord (hw : IsWord w) : words w = [w] := by
  simp [words, pieces_eq_singleton hw.2, hw.1]

theorem collapse_ne_nil (hc : isBlank c = false) (cs : List Char) : collapse (c :: cs) ≠ [] := by
  obtain ⟨w, ws, hw⟩ := List.exists_cons_of_ne_nil (words_ne_nil hc cs)
  have hne : w ≠ [] := (mem_words (hw ▸ List.mem_cons_self)).2.1
  rw [collapse, hw]
  cases ws <;> simp [List.intercalate_cons_cons, hne]

theorem eq_space_of_mem_collapse (hc : isBlank c = true) (h : c ∈ collapse cs) : c = ' ' := by
  by_contra hne
  obtain ⟨w, hw, hcw⟩ := mem_intercalate hne h
  have hnot := (mem_words hw).2.2 c hcw
  simp [hc] at hnot

/-- Where the words are joined by single spaces, a blank has a character that is not blank on both sides. -/
theorem neighbours_of_collapse {a b : List Char} (h : collapse (a ++ c :: b) = a ++ c :: b) (hc : isBlank c = true) :
    a ≠ [] ∧ ∃ d r, b = d :: r ∧ isBlank d = false := by
  have hwords := words_append_cons a b hc
  refine ⟨?_, ?_⟩
  · rintro rfl
    rw [List.nil_append, collapse_cons_blank hc] at h
    have hle := length_collapse_le b
    rw [h, List.length_cons] at hle
    omega
  · cases b with
    | nil =>
      rw [show words [] = [] from rfl, List.append_nil] at hwords
      have hle := length_collapse_le a
      rw [collapse, ← hwords, ← collapse, h, List.length_append] at hle
      simp only [List.length_cons, List.length_nil] at hle
      omega
    | cons d r =>
      refine ⟨d, r, rfl, ?_⟩
      by_contra hd
      have hd : isBlank d = true := by simpa using hd
      have heq : collapse (a ++ c :: d :: r) = collapse (a ++ c :: r) := by
        rw [collapse, hwords, collapse, words_append_cons a r hc]
        simp [words, pieces, hd]
      have hle := length_collapse_le (a ++ c :: r)
      rw [← heq, h] at hle
      simp only [List.length_append, List.length_cons] at hle
      omega

theorem trimStart_of_head (h : ∀ c ∈ cs.head?, isBlank c = false) : trimStart cs = cs := by
  cases cs with
  | nil => rfl
  | cons c cs => exact List.dropWhile_cons_of_neg (by simp [h c rfl])

theorem dropEndWhile_of_getLast (h : ∀ c ∈ cs.getLast?, p c = false) : dropEndWhile p cs = cs := by
  induction cs with
  | nil => rfl
  | cons c cs ih =>
    cases cs with
    | nil => simp [dropEndWhile, h c rfl]
    | cons d cs => rw [dropEndWhile, ih fun e he => h e (by simpa using he)]

/-- What is dropped at the end is a run of such characters. -/
theorem dropEndWhile_append (p : Char → Bool) (cs : List Char) :
    ∃ run, dropEndWhile p cs ++ run = cs ∧ ∀ c ∈ run, p c = true := by
  induction cs with
  | nil => exact ⟨[], rfl, by simp⟩
  | cons c cs ih =>
    obtain ⟨run, hrun, hall⟩ := ih
    cases hkept : dropEndWhile p cs with
    | cons d kept =>
      rw [hkept] at hrun
      refine ⟨run, ?_, hall⟩
      simp only [dropEndWhile, hkept]
      rw [List.cons_append, hrun]
    | nil =>
      rw [hkept, List.nil_append] at hrun
      subst hrun
      by_cases hc : p c = true
      · exact ⟨c :: run, by simp [dropEndWhile, hkept, hc], List.forall_mem_cons.mpr ⟨hc, hall⟩⟩
      · exact ⟨run, by simp [dropEndWhile, hkept, hc], hall⟩

theorem dropEndWhile_concat (h : p c = true) (cs : List Char) : dropEndWhile p (cs ++ [c]) = dropEndWhile p cs := by
  induction cs with
  | nil => simp [dropEndWhile, h]
  | cons d cs ih => rw [List.cons_append, dropEndWhile, ih, dropEndWhile]

theorem trim_concat (h : isBlank c = true) (cs : List Char) : trim (cs ++ [c]) = trim cs := by
  have hstart : ∀ cs, trimEnd (trimStart (cs ++ [c])) = trimEnd (trimStart cs) := by
    intro cs
    induction cs with
    | nil => simp [trimStart, h]
    | cons d cs ih =>
      by_cases hd : isBlank d = true
      · simpa [trimStart, hd] using ih
      · simpa [trimStart, trimEnd, hd] using dropEndWhile_concat h (d :: cs)
  exact hstart cs

theorem length_trim_le (cs : List Char) : (trim cs).length ≤ cs.length := by
  obtain ⟨run, hrun, -⟩ := dropEndWhile_append isBlank (trimStart cs)
  have hend : (trim cs).length ≤ (trimStart cs).length := by
    rw [← hrun, List.length_append]
    exact Nat.le_add_right _ _
  exact hend.trans (List.dropWhile_suffix isBlank).length_le

theorem getLast_of_trim (h : trim cs = cs) : ∀ c ∈ cs.getLast?, isBlank c = false := by
  intro c hc
  obtain ⟨r, rfl⟩ : ∃ r, cs = r ++ [c] := List.getLast?_eq_some_iff.mp hc
  by_contra hblank
  have hle := length_trim_le r
  rw [← trim_concat (by simpa using hblank), h, List.length_append, List.length_singleton] at hle
  omega

theorem trim_of_ends (hhead : ∀ c ∈ cs.head?, isBlank c = false) (hlast : ∀ c ∈ cs.getLast?, isBlank c = false) :
    trim cs = cs := by
  rw [trim, trimStart_of_head hhead, trimEnd, dropEndWhile_of_getLast hlast]

/-- Blanks around a text go with its own ones. -/
theorem trim_surrounded (ha : ∀ c ∈ a, isBlank c = true) (hb : ∀ c ∈ b, isBlank c = true) (cs : List Char) :
    trim (a ++ cs ++ b) = trim cs := by
  have hfront : trim (a ++ cs) = trim cs := by rw [trim, trimStart, List.dropWhile_append_of_pos ha, trim, trimStart]
  rw [← hfront]
  induction b using List.reverseRecOn with
  | nil => rw [List.append_nil]
  | append_singleton b c ih =>
    rw [← List.append_assoc, trim_concat (hb c (by simp)), ih fun d hd => hb d (by simp [hd])]

theorem head_of_collapse (h : collapse cs = cs) : ∀ c ∈ cs.head?, isBlank c = false := by
  intro c hc
  obtain ⟨b, rfl⟩ : ∃ b, cs = c :: b := List.head?_eq_some_iff.mp hc
  by_contra hb
  exact (neighbours_of_collapse (a := []) h (by simpa using hb)).1 rfl

theorem getLast_of_collapse (h : collapse cs = cs) : ∀ c ∈ cs.getLast?, isBlank c = false := by
  intro c hc
  obtain ⟨a, rfl⟩ : ∃ a, cs = a ++ [c] := List.getLast?_eq_some_iff.mp hc
  by_contra hb
  obtain ⟨_, _, hnil, -⟩ := (neighbours_of_collapse h (by simpa using hb)).2
  cases hnil

theorem trim_of_collapse (h : collapse cs = cs) : trim cs = cs :=
  trim_of_ends (head_of_collapse h) (getLast_of_collapse h)

theorem length_splitFirst_le {sep a b before after : List Char}
    (h : splitFirst sep (a ++ sep ++ b) = some (before, after)) : before.length ≤ a.length := by
  induction a generalizing before after with
  | nil =>
    cases sep with
    | nil => cases b <;> simp_all [splitFirst]
    | cons c sep => simp_all [splitFirst]
  | cons c a ih =>
    simp only [List.cons_append, splitFirst] at h
    split at h
    · cases h
      simp
    · obtain ⟨⟨b', a'⟩, hs, he⟩ := Option.map_eq_some_iff.mp h
      cases he
      have := ih hs
      simp only [List.length_cons]
      omega

theorem splitFirst_isSome (sep a b : List Char) :
    ∃ before after, splitFirst sep (a ++ sep ++ b) = some (before, after) := by
  induction a with
  | nil =>
    cases sep with
    | nil => cases b <;> simp [splitFirst]
    | cons c sep => simp [splitFirst]
  | cons c a ih =>
    obtain ⟨before, after, ih⟩ := ih
    simp only [List.cons_append, splitFirst]
    split
    · exact ⟨_, _, rfl⟩
    · exact ⟨c :: before, after, by rw [ih]; rfl⟩

theorem not_infix_of_splitFirst {sep before after : List Char} (hsep : sep ≠ [])
    (h : splitFirst sep cs = some (before, after)) : ¬sep <:+: before := by
  rintro ⟨x, y, rfl⟩
  have hcs := splitFirst_eq h
  rw [hcs, List.append_assoc, List.append_assoc, List.append_assoc, ← List.append_assoc] at h
  have hle := length_splitFirst_le h
  have hpos := List.length_pos_iff.mpr hsep
  simp only [List.length_append] at hle
  omega

theorem behind?_append (start rest : List Char) : behind? start (start ++ rest) = some rest := by
  simp [behind?]

theorem behind?_eq_some {start cs rest : List Char} (h : behind? start cs = some rest) : cs = start ++ rest := by
  unfold behind? at h
  split at h
  · rename_i hp
    obtain ⟨tail, rfl⟩ := List.isPrefixOf_iff_prefix.mp hp
    simpa using h
  · cases h

theorem splitFirst_of_head (h : c ∉ w) (sep cs : List Char) :
    splitFirst (c :: sep) (w ++ (c :: sep ++ cs)) = some (w, cs) := by
  induction w with
  | nil => simp [splitFirst]
  | cons d w ih =>
    have hne : c ≠ d := by
      rintro rfl
      exact h List.mem_cons_self
    have ih := ih fun hin => h (List.mem_cons_of_mem _ hin)
    rw [List.cons_append] at ih
    simp [splitFirst, hne, ih]

theorem splitFirst_single (h : c ∉ w) : splitFirst [c] (w ++ c :: cs) = some (w, cs) :=
  splitFirst_of_head h [] cs

theorem splitFirst_pair (h : ¬[c, c] <:+: w) (hend : ¬[c] <:+ w) :
    splitFirst [c, c] (w ++ c :: c :: cs) = some (w, cs) := by
  induction w with
  | nil => simp [splitFirst]
  | cons d w ih =>
    have ih := ih (fun hin => h (hin.trans (List.suffix_cons d w).isInfix))
      fun hin => hend (hin.trans (List.suffix_cons d w))
    have hnot : ¬[c, c] <+: d :: (w ++ c :: c :: cs) := by
      intro hpre
      obtain ⟨hd, hnext⟩ := List.cons_prefix_cons.mp hpre
      subst hd
      cases w with
      | nil => exact hend List.suffix_rfl
      | cons e w =>
        obtain ⟨he, -⟩ := List.cons_prefix_cons.mp hnext
        subst he
        exact h ⟨[], w, by simp⟩
    have hfalse : List.isPrefixOf [c, c] (d :: (w ++ c :: c :: cs)) = false :=
      Bool.eq_false_iff.mpr fun hp => hnot (List.isPrefixOf_iff_prefix.mp hp)
    rw [List.cons_append, splitFirst, hfalse, ih]
    rfl

theorem splitFirst_eq_none {sep : List Char} (h : ¬sep <:+: cs) : splitFirst sep cs = none := by
  cases hsplit : splitFirst sep cs with
  | none => rfl
  | some cut => exact absurd ⟨cut.1, cut.2, (splitFirst_eq hsplit).symm⟩ h

/-- A text that does not end blank and a word behind it, between two spaces, are cut apart there, if the word is none
of those of the text. -/
theorem splitFirst_word (hw : IsWord w) (ha : w ∉ words a) (hlast : ∀ c ∈ a.getLast?, isBlank c = false)
    (b : List Char) : splitFirst (' ' :: (w ++ [' '])) (a ++ ' ' :: (w ++ [' ']) ++ b) = some (a, b) := by
  obtain ⟨before, after, hsplit⟩ := splitFirst_isSome (' ' :: (w ++ [' '])) a b
  have hle := length_splitFirst_le hsplit
  have heq : a ++ (' ' :: (w ++ [' ']) ++ b) = before ++ (' ' :: (w ++ [' ']) ++ after) := by
    simpa only [List.append_assoc] using splitFirst_eq hsplit
  obtain ⟨x, rfl⟩ : before <+: a := List.prefix_of_prefix_length_le ⟨_, heq.symm⟩ (List.prefix_append a _) hle
  rw [List.append_assoc, List.append_cancel_left_eq] at heq
  cases x with
  | nil =>
    rw [hsplit, List.append_nil, show b = after from List.append_cancel_left heq]
  | cons e x =>
    simp only [List.cons_append, List.append_assoc, List.nil_append, List.cons.injEq] at heq
    obtain ⟨rfl, heq⟩ := heq
    have hwords := congrArg words heq
    rw [words_append_cons x _ (by decide), words_append_cons w _ (by decide), words_append_cons w _ (by decide),
      words_of_isWord hw] at hwords
    have hx : w ∉ words x := fun hin => ha (by rw [words_append_cons before x (by decide)]; simp [hin])
    obtain ⟨v, vs, hv⟩ := List.exists_cons_of_ne_nil (words_ne_nil_of_getLast (by decide) hlast)
    rw [hv] at hwords hx
    exact absurd (List.cons.inj hwords).1.symm (List.ne_of_not_mem_cons hx)

theorem splitFirst_word_eq_none (hw : IsWord w) (ha : w ∉ words a) : splitFirst (' ' :: (w ++ [' '])) a = none := by
  refine splitFirst_eq_none ?_
  rintro ⟨x, y, rfl⟩
  refine ha ?_
  simp only [List.cons_append, List.append_assoc, List.nil_append]
  rw [words_append_cons x _ (by decide), words_append_cons w _ (by decide), words_of_isWord hw]
  simp

theorem lowercaseAfter_eq_self (h : ∀ d ∈ cs, d ≠ 'Σ' ∧ lowercaseChar d = [d]) (before : List Char) :
    lowercaseAfter before cs = cs := by
  induction cs generalizing before with
  | nil => rfl
  | cons d cs ih =>
    obtain ⟨⟨hne, hd⟩, hcs⟩ := List.forall_mem_cons.mp h
    rw [lowercaseAfter, if_neg hne, hd, ih hcs]
    rfl

theorem digit_spec (h : c.isDigit = true) : isBlank c = false ∧ c ≠ 'Σ' ∧ lowercaseChar c = [c] := by
  have hrange : 48 ≤ c.toNat ∧ c.toNat ≤ 57 := Char.isDigit_iff_toNat.mp h
  refine ⟨?_, ?_, ?_⟩
  · simp only [isBlank, Bool.or_eq_false_iff, Bool.and_eq_false_imp, decide_eq_true_eq, decide_eq_false_iff_not,
      beq_eq_false_iff_ne, ne_eq]
    omega
  · rintro rfl
    exact absurd hrange.2 (by decide)
  · have hsmall : ¬('A' ≤ c ∧ c ≤ 'Z') := by
      rintro ⟨hle, -⟩
      have hcapital : 65 ≤ c.toNat := hle
      omega
    rw [lowercaseChar, if_pos (by omega), lowercaseAscii, if_neg hsmall]

end Morphology.Chars

namespace Morphology.Text

variable {sep s a b : String} {c : Char}

theorem collapse_eq_iff {s : String} : collapse s = s ↔ Chars.collapse s.toList = s.toList := by
  refine ⟨fun h => ?_, fun h => ?_⟩
  · conv_rhs => rw [← h]
    rw [collapse, String.toList_ofList]
  · rw [collapse, h, String.ofList_toList]

theorem collapse_collapse (s : String) : collapse (collapse s) = collapse s := by
  rw [collapse_eq_iff, collapse, String.toList_ofList]
  exact Chars.collapse_collapse _

theorem collapse?_collapse? (s : Option String) : collapse? (collapse? s) = collapse? s := by
  cases s with
  | none => rfl
  | some s =>
    simp only [collapse?, Option.map_some, Option.filter_some]
    split
    · rename_i h
      simp only [Option.map_some, Option.filter_some, collapse_collapse, h, if_true]
    · rfl

theorem fold_collapse (s : String) : fold (collapse s) = fold s := by
  rw [fold, collapse_collapse, fold]

theorem trim_eq_iff : trim s = s ↔ Chars.trim s.toList = s.toList := by
  rw [← String.toList_inj, trim, String.toList_ofList]

theorem trim_surrounded (ha : isBlank a = true) (hb : isBlank b = true) (h : trim s = s) : trim (a ++ s ++ b) = s := by
  have hblank {t : String} (ht : isBlank t = true) : ∀ c ∈ t.toList, Chars.isBlank c = true := by
    simpa [isBlank] using ht
  calc trim (a ++ s ++ b) = trim s := by
        simp only [trim, String.toList_append, Chars.trim_surrounded (hblank ha) (hblank hb)]
    _ = s := h

theorem behind?_append (start rest : String) : behind? start (start ++ rest) = some rest := by
  rw [behind?, String.toList_append, Chars.behind?_append, Option.map_some, String.ofList_toList]

/-- Of two beginnings, a text can have both only if one of them begins with the other. -/
theorem behind?_eq_none {start other : String} (h : ¬start.toList <+: other.toList) (h' : ¬other.toList <+: start.toList)
    (rest : String) : behind? start (other ++ rest) = none := by
  have hnot : ¬start.toList <+: other.toList ++ rest.toList := fun hp =>
    (List.prefix_or_prefix_of_prefix hp (List.prefix_append _ _)).elim h h'
  have hfalse : start.toList.isPrefixOf (other.toList ++ rest.toList) = false :=
    Bool.eq_false_iff.mpr fun hp => hnot (List.isPrefixOf_iff_prefix.mp hp)
  simp [behind?, Chars.behind?, hfalse]

theorem behind?_append_append (start more rest : String) :
    behind? (start ++ more) (start ++ rest) = behind? more rest := by
  have hprefix : (start.toList ++ more.toList).isPrefixOf (start.toList ++ rest.toList) =
      more.toList.isPrefixOf rest.toList := by
    rw [Bool.eq_iff_iff, List.isPrefixOf_iff_prefix, List.isPrefixOf_iff_prefix, List.prefix_append_right_inj]
  have hdrop : (start.toList ++ rest.toList).drop (start.toList.length + more.toList.length) =
      rest.toList.drop more.toList.length := by
    rw [List.drop_append, List.drop_eq_nil_of_le (Nat.le_add_right _ _), List.nil_append, Nat.add_sub_cancel_left]
  simp only [behind?, Chars.behind?, String.toList_append, List.length_append, hprefix, hdrop]

theorem splitFirst_of_toList (h : Chars.splitFirst sep.toList s.toList = some (a.toList, b.toList)) :
    splitFirst sep s = some (a, b) := by
  simp only [splitFirst, h, Option.map_some, String.ofList_toList]

/-- A text is cut at a mark that has a character the text before it has not. -/
theorem splitFirst_append (hsep : sep.toList.head? = some c) (ha : c ∉ a.toList) (b : String) :
    splitFirst sep (a ++ sep ++ b) = some (a, b) := by
  obtain ⟨rest, hrest⟩ := List.head?_eq_some_iff.mp hsep
  refine splitFirst_of_toList ?_
  rw [String.toList_append, String.toList_append, hrest, List.append_assoc]
  exact Chars.splitFirst_of_head ha rest b.toList

end Morphology.Text
