import Mathlib.Data.List.TakeWhile
import Morphology.Document.Render
import Morphology.Proofs.Text

/-! Texts made of rows. Rows without line breaks, each with a break behind it, are read as these lines and no
others; the reading of a document cuts its lines at headers and at fences, so that each block and each segment
can be told from the lines it stands on and the one behind them. -/

namespace Morphology

namespace Text

/-- One line without its break. -/
def IsRow (s : String) : Prop := '\n' ∉ s.toList ∧ ¬['\r'] <:+ s.toList

instance (s : String) : Decidable (IsRow s) := inferInstanceAs (Decidable (_ ∧ _))

def ofRows (rows : List String) : String := concat (rows.map (· ++ "\n"))

/-- The number of line breaks. -/
def breaks (s : String) : Nat := s.toList.count '\n'

theorem concat_append (xs ys : List String) : concat (xs ++ ys) = concat xs ++ concat ys := by
  induction xs with
  | nil => simp [concat]
  | cons x xs ih => simpa [concat, String.append_assoc] using congrArg (x ++ ·) ih

theorem concat_flatMap {α : Type} (f : α → List String) (xs : List α) :
    concat (xs.flatMap f) = concat (xs.map fun x => concat (f x)) := by
  induction xs with
  | nil => rfl
  | cons x xs ih => rw [List.flatMap_cons, concat_append, ih, List.map_cons]; rfl

@[simp] theorem ofRows_nil : ofRows [] = "" := rfl

@[simp] theorem ofRows_cons (row : String) (rows : List String) : ofRows (row :: rows) = row ++ "\n" ++ ofRows rows :=
  rfl

theorem ofRows_append (rows rows' : List String) : ofRows (rows ++ rows') = ofRows rows ++ ofRows rows' := by
  rw [ofRows, List.map_append, concat_append]
  rfl

theorem ofRows_flatMap {α : Type} (f : α → List String) (xs : List α) :
    ofRows (xs.flatMap f) = concat (xs.map fun x => ofRows (f x)) := by
  rw [ofRows, List.map_flatMap, concat_flatMap]
  rfl

theorem isRow_of_blanks {s : String} (h : ∀ c ∈ s.toList, Chars.isBlank c = true → c = ' ') : IsRow s := by
  refine ⟨fun hin => absurd (h '\n' hin (by decide)) (by decide), fun hend => ?_⟩
  exact absurd (h '\r' (hend.subset List.mem_cons_self) (by decide)) (by decide)

end Text

namespace Chars

theorem finishLines_cons {line : List Char} {rest : List (List Char)} (h : rest ≠ []) :
    finishLines (line :: rest) = dropReturn line :: finishLines rest := by
  cases rest with
  | nil => exact absurd rfl h
  | cons next rest => rfl

theorem dropReturn_of_not_suffix {line : List Char} (h : ¬['\r'] <:+ line) : dropReturn line = line := by
  have hnot : ['\r'].isSuffixOf line = false := Bool.eq_false_iff.mpr fun hs => h (List.isSuffixOf_iff_suffix.mp hs)
  simp [dropReturn, before?, hnot]

theorem dropReturn_infix (line : List Char) : dropReturn line <:+: line := by
  unfold dropReturn before?
  split
  · exact (List.take_prefix _ _).isInfix
  · exact List.infix_rfl

theorem finishLines_append (parts : List (List Char)) {rest : List (List Char)} (h : rest ≠ []) :
    finishLines (parts ++ rest) = parts.map dropReturn ++ finishLines rest := by
  induction parts with
  | nil => rfl
  | cons part parts ih =>
    rw [List.cons_append, finishLines_cons (List.append_ne_nil_of_right_ne_nil _ h), ih]
    rfl

/-- The lines before a break do not depend on what comes behind it. -/
theorem lines_append_cons (cs rest : List Char) :
    lines (cs ++ '\n' :: rest) = (pieces (· == '\n') cs).map dropReturn ++ lines rest := by
  rw [lines, pieces_append_cons_of_pos cs rest (by rfl), finishLines_append _ (pieces_ne_nil _ rest), lines]

theorem lines_append_break {row : List Char} (h : '\n' ∉ row) (cs : List Char) :
    lines (row ++ '\n' :: cs) = dropReturn row :: lines cs := by
  have hrow : ∀ c ∈ row, (c == '\n') = false := by
    intro c hc
    rw [beq_eq_false_iff_ne]
    rintro rfl
    exact h hc
  rw [lines_append_cons, pieces_eq_singleton hrow]
  rfl

theorem mem_finishLines {line : List Char} {parts : List (List Char)} (h : line ∈ finishLines parts) :
    ∃ part ∈ parts, line <:+: part := by
  fun_induction finishLines parts with
  | case1 => cases h
  | case2 => cases h
  | case3 last _ =>
    obtain rfl := List.mem_singleton.mp h
    exact ⟨_, List.mem_cons_self, List.infix_rfl⟩
  | case4 part rest _ ih =>
    rcases List.mem_cons.mp h with rfl | h
    · exact ⟨part, List.mem_cons_self, dropReturn_infix part⟩
    · obtain ⟨part', hpart, hin⟩ := ih h
      exact ⟨part', List.mem_cons_of_mem _ hpart, hin⟩

theorem mem_lines {line cs : List Char} (h : line ∈ lines cs) : line <:+: cs ∧ '\n' ∉ line := by
  obtain ⟨part, hpart, hin⟩ := mem_finishLines h
  obtain ⟨hcs, hbreak⟩ := mem_pieces hpart
  refine ⟨hin.trans hcs, fun hmem => ?_⟩
  have hnot := hbreak '\n' (hin.subset hmem)
  simp at hnot

end Chars

namespace Text

theorem lines_ofRows {rows : List String} (h : ∀ row ∈ rows, IsRow row) :
    Chars.lines (ofRows rows).toList = rows.map String.toList := by
  induction rows with
  | nil => rfl
  | cons row rows ih =>
    obtain ⟨hbreak, hreturn⟩ := h row List.mem_cons_self
    have ih := ih fun r hr => h r (List.mem_cons_of_mem _ hr)
    have htext : (ofRows (row :: rows)).toList = row.toList ++ '\n' :: (ofRows rows).toList := by simp
    rw [htext, Chars.lines_append_break hbreak, Chars.dropReturn_of_not_suffix hreturn, ih, List.map_cons]

theorem breaks_ofRows {rows : List String} (h : ∀ row ∈ rows, IsRow row) : breaks (ofRows rows) = rows.length := by
  induction rows with
  | nil => rfl
  | cons row rows ih =>
    have ih := ih fun r hr => h r (List.mem_cons_of_mem _ hr)
    have hrow : row.toList.count '\n' = 0 := List.count_eq_zero.mpr (h row List.mem_cons_self).1
    unfold breaks at ih ⊢
    simp [hrow, ih]

end Text

namespace SourceLine

open Text

def numbered (n : Nat) (rows : List String) : List SourceLine :=
  (rows.zipIdx n).map fun (row, k) => ⟨k, row⟩

@[simp] theorem numbered_nil (n : Nat) : numbered n [] = [] := rfl

@[simp] theorem numbered_cons (n : Nat) (row : String) (rows : List String) :
    numbered n (row :: rows) = ⟨n, row⟩ :: numbered (n + 1) rows := rfl

theorem numbered_append (n : Nat) (rows rows' : List String) :
    numbered n (rows ++ rows') = numbered n rows ++ numbered (n + rows.length) rows' := by
  rw [numbered, List.zipIdx_append, List.map_append]
  rfl

theorem length_numbered (n : Nat) (rows : List String) : (numbered n rows).length = rows.length := by
  simp [numbered]

theorem mem_numbered {n : Nat} {rows : List String} {l : SourceLine} (h : l ∈ numbered n rows) : l.text ∈ rows := by
  obtain ⟨⟨row, k⟩, hin, rfl⟩ := List.mem_map.mp h
  exact List.fst_mem_of_mem_zipIdx hin

theorem prose_numbered (n : Nat) (rows : List String) : prose (numbered n rows) = ofRows rows := by
  have htexts : (numbered n rows).map (fun l => l.text ++ "\n") = rows.map (· ++ "\n") := by
    conv_rhs => rw [← List.zipIdx_map_fst n rows, List.map_map]
    rw [numbered, List.map_map]
    rfl
  rw [prose, htexts, ofRows]

theorem ofText_eq_numbered (text : String) :
    ofText text = numbered 1 ((Chars.lines text.toList).map fun line => String.ofList (Chars.dropReturn line)) := by
  simp [ofText, numbered, List.zipIdx_map]

theorem ofText_ofRows {rows : List String} (h : ∀ row ∈ rows, IsRow row) : ofText (ofRows rows) = numbered 1 rows := by
  rw [ofText_eq_numbered, lines_ofRows h, List.map_map]
  congr 1
  refine (List.map_congr_left fun row hrow => ?_).trans (List.map_id rows)
  simp [Chars.dropReturn_of_not_suffix (h row hrow).2]

/-- Every line of a text without carriage returns is a row. -/
theorem ofText_rows {text : String} (h : '\r' ∉ text.toList) :
    ∃ rows, ofText text = numbered 1 rows ∧ ∀ row ∈ rows, IsRow row := by
  refine ⟨_, ofText_eq_numbered text, fun row hrow => ?_⟩
  obtain ⟨line, hline, rfl⟩ := List.mem_map.mp hrow
  obtain ⟨hin, hbreak⟩ := Chars.mem_lines hline
  have hsub := Chars.dropReturn_infix line
  refine ⟨fun hmem => hbreak (hsub.subset (by simpa using hmem)), fun hend => h ?_⟩
  rw [String.toList_ofList] at hend
  exact (hsub.trans hin).subset (hend.subset List.mem_cons_self)

end SourceLine

namespace Document

open SourceLine

variable {l c : SourceLine} {ls rest : List SourceLine}

theorem cut_of_head (p : SourceLine → Bool) (hls : ∀ m ∈ ls, p m = false)
    (hrest : ∀ m ∈ rest.head?, p m = true) :
    (ls ++ rest).takeWhile (fun m => !p m) = ls ∧ (ls ++ rest).dropWhile (fun m => !p m) = rest := by
  have hnot : ∀ m ∈ ls, (!p m) = true := fun m hm => by simp [hls m hm]
  rw [List.takeWhile_append_of_pos hnot, List.dropWhile_append_of_pos hnot]
  cases rest with
  | nil => simp
  | cons m rest => simp [hrest m rfl]

theorem head_dropWhile (p : SourceLine → Bool) (ls : List SourceLine) :
    ∀ m ∈ (ls.dropWhile fun m => !p m).head?, p m = true := by
  intro m hm
  have hnot := List.head?_dropWhile_not (fun m : SourceLine => !p m) ls
  rw [Option.mem_def.mp hm] at hnot
  simpa using hnot

theorem of_mem_takeWhile {p : SourceLine → Bool} (h : l ∈ ls.takeWhile fun m => !p m) : p l = false := by
  simpa using List.mem_takeWhile_imp h

theorem cons_cut (p : SourceLine → Bool) (l : SourceLine) (rest : List SourceLine) :
    l :: rest = (l :: rest.takeWhile p) ++ rest.dropWhile p :=
  congrArg (l :: ·) List.takeWhile_append_dropWhile.symm

theorem segmentsOf_prose (hne : ls ≠ []) (hls : ∀ m ∈ ls, m.opensFence = false)
    (hrest : ∀ m ∈ rest.head?, m.opensFence = true) :
    segmentsOf (ls ++ rest) = .prose (prose ls) :: segmentsOf rest := by
  obtain ⟨l, ls, rfl⟩ := List.exists_cons_of_ne_nil hne
  have hl : Line.fenceOpening? l.text.toList = none := by
    simpa [opensFence] using hls l List.mem_cons_self
  obtain ⟨htake, hdrop⟩ := cut_of_head opensFence (fun m hm => hls m (List.mem_cons_of_mem _ hm)) hrest
  rw [List.cons_append, segmentsOf, hl]
  simp only [htake, hdrop]

theorem segmentsOf_fence {label : Option (List Char)} (hl : Line.fenceOpening? l.text.toList = some label)
    (hls : ∀ m ∈ ls, m.closesFence = false) (hc : c.closesFence = true) :
    segmentsOf (l :: (ls ++ c :: rest)) =
      .fence ⟨label.map String.ofList, l.number, ls.map fenceLine, true⟩ :: segmentsOf rest := by
  have hhead : ∀ m ∈ (c :: rest).head?, m.closesFence = true := by simpa using hc
  obtain ⟨htake, hdrop⟩ := cut_of_head closesFence hls hhead
  rw [segmentsOf, hl]
  simp only [htake, hdrop]
  rfl

theorem blocksOf_block {name : List Char} {qualifier : Option (List Char)} (stop : Nat)
    (hl : l.header? = some (name, qualifier)) (hls : ∀ m ∈ ls, m.isHeader = false)
    (hrest : ∀ m ∈ rest.head?, m.isHeader = true) :
    blocksOf stop (l :: (ls ++ rest)) =
      blockOf l.number name qualifier ls ((rest.head?.map (·.number)).getD stop) :: blocksOf stop rest := by
  obtain ⟨htake, hdrop⟩ := cut_of_head isHeader hls hrest
  rw [blocksOf, hl]
  simp only [htake, hdrop]

end Document

end Morphology
