import Mathlib.Data.List.Flatten
import Mathlib.Data.List.Nodup
import Mathlib.Data.List.Perm.Basic
import Mathlib.Data.List.Range
import Morphology.Proofs.Document.Rows

/-! Where the lines of a document stand. Each line of a text is either within a fence or not, and the statements have
the numbers of lines of the first kind, in the same order. -/

namespace Morphology

/-- The place of a line that is not blank. -/
def FenceLine.number? : FenceLine → Option Nat
  | statement n _ => some n
  | invalid n _ => some n
  | blank => none

def Fence.numbers (f : Fence) : List Nat := f.lines.filterMap FenceLine.number?

/-- The places of the lines that are no statements. -/
def Fence.invalidLines (f : Fence) : List Nat :=
  f.lines.filterMap fun
    | .invalid n _ => some n
    | _ => none

def Segment.fence? : Segment → Option Fence
  | prose _ => none
  | fence f => some f

def Block.numbers (b : Block) : List Nat := b.fences.flatMap Fence.numbers

namespace Document

open SourceLine

def numbers (d : Document) : List Nat := d.blocks.flatMap Block.numbers

/-- The lines of the statements, from the first to the last. -/
def statementLines (d : Document) : List Nat :=
  d.blocks.flatMap fun b => b.fences.flatMap fun f => f.statements.map (·.1)

/-- The errors of a block with these fences. -/
def errorsOf (stop : Nat) (fences : List Fence) : List ParseError :=
  (fences.flatMap fun fence => fence.lines.filterMap lineError?) ++
    (fences.filter fun fence => !fence.closed).map (unclosedError stop)

def invalidLines (d : Document) : List Nat := d.blocks.flatMap fun b => b.fences.flatMap Fence.invalidLines

def fencesOf (ls : List SourceLine) : List Fence := (segmentsOf ls).filterMap Segment.fence?

/-- Each line of a block, and whether it stands within a fence. -/
def inFences (ls : List SourceLine) : List (SourceLine × Bool) :=
  match ls with
  | [] => []
  | l :: rest =>
    if l.opensFence then
      let inner := rest.takeWhile fun m => !m.closesFence
      let behind := rest.dropWhile fun m => !m.closesFence
      (l, false) :: (inner.map (·, true) ++ ((behind.take 1).map (·, false) ++ inFences (behind.drop 1)))
    else
      let more := rest.takeWhile fun m => !m.opensFence
      (l :: more).map (·, false) ++ inFences (rest.dropWhile fun m => !m.opensFence)
termination_by ls.length
decreasing_by
  · have := length_dropWhile_lt (fun m => !m.closesFence) l rest
    simp only [List.length_drop]
    omega
  · exact length_dropWhile_lt _ l rest

/-- Each line of a text, and whether it stands within a fence. -/
def inBlocks (ls : List SourceLine) : List (SourceLine × Bool) :=
  match ls with
  | [] => []
  | l :: rest =>
    let body := rest.takeWhile fun m => !m.isHeader
    let next := rest.dropWhile fun m => !m.isHeader
    (l, false) :: ((if l.isHeader then inFences body else body.map (·, false)) ++ inBlocks next)
termination_by ls.length
decreasing_by exact length_dropWhile_lt _ l rest

end Document

theorem Block.fences_eq (b : Block) : b.fences = b.segments.filterMap Segment.fence? := by
  unfold fences
  congr 1
  funext s
  cases s <;> rfl

theorem Fence.statements_sublist (f : Fence) : (f.statements.map (·.1)).Sublist f.numbers := by
  unfold statements numbers
  induction f.lines with
  | nil => exact .refl _
  | cons l ls ih =>
    cases l with
    | statement n s => exact ih.cons_cons n
    | invalid n raw => exact ih.cons n
    | blank => exact ih

theorem Fence.numbers_perm (f : Fence) : (f.statements.map (·.1) ++ f.invalidLines).Perm f.numbers := by
  unfold statements invalidLines numbers
  induction f.lines with
  | nil => exact .refl _
  | cons l ls ih =>
    cases l with
    | statement n s => exact ih.cons n
    | invalid n raw => exact List.perm_middle.trans (ih.cons n)
    | blank => exact ih

namespace Document

open SourceLine

/-- What stands in a fence is a statement or not, and not both. -/
theorem numbers_perm (d : Document) : (d.statementLines ++ d.invalidLines).Perm d.numbers :=
  (List.flatMap_append_perm _ _ _).trans <| .flatMap_left _ fun _ _ =>
    (List.flatMap_append_perm _ _ _).trans <| .flatMap_left _ fun f _ => f.numbers_perm

theorem statementLines_sublist (d : Document) : d.statementLines.Sublist d.numbers :=
  .flatMap_right _ fun _ _ => .flatMap_right _ fun f _ => f.statements_sublist

variable {l : SourceLine} {ls rest : List SourceLine}

theorem fencesOf_nil : fencesOf [] = [] := by
  rw [fencesOf, segmentsOf]
  rfl

theorem fencesOf_opening {label : Option (List Char)} (h : Line.fenceOpening? l.text.toList = some label) :
    fencesOf (l :: rest) = ⟨label.map String.ofList, l.number,
      (rest.takeWhile fun m => !m.closesFence).map fenceLine, !(rest.dropWhile fun m => !m.closesFence).isEmpty⟩ ::
        fencesOf ((rest.dropWhile fun m => !m.closesFence).drop 1) := by
  rw [fencesOf, segmentsOf, h]
  rfl

theorem fencesOf_other (h : Line.fenceOpening? l.text.toList = none) :
    fencesOf (l :: rest) = fencesOf (rest.dropWhile fun m => !m.opensFence) := by
  rw [fencesOf, segmentsOf, h]
  rfl

section Blocks

variable (n : Nat) (name : List Char) (qualifier : Option (List Char)) (body : List SourceLine) (stop : Nat)

theorem fences_blockOf : (blockOf n name qualifier body stop).fences = fencesOf body := by
  rw [Block.fences_eq]
  rfl

theorem blockOf_eq : blockOf n name qualifier body stop =
    ⟨String.ofList name, qualifier.map String.ofList, n, segmentsOf body, errorsOf stop (fencesOf body)⟩ := by
  rw [← fences_blockOf n name qualifier body stop]
  rfl

end Blocks

theorem map_inFences (ls : List SourceLine) : (inFences ls).map (·.1) = ls := by
  fun_induction inFences ls with
  | case1 => rfl
  | case2 l rest hopen inner behind ih =>
    simp only [List.map_cons, List.map_append, List.map_map, ih, Function.comp_def, List.map_id']
    rw [List.take_append_drop, List.takeWhile_append_dropWhile]
  | case3 l rest hopen more ih =>
    simp only [List.map_append, List.map_map, ih, Function.comp_def, List.map_id', more]
    rw [List.cons_append, List.takeWhile_append_dropWhile]

theorem map_inBlocks (ls : List SourceLine) : (inBlocks ls).map (·.1) = ls := by
  fun_induction inBlocks ls with
  | case1 => rfl
  | case2 l rest body next ih =>
    have hbody : (if l.isHeader then inFences body else body.map (·, false)).map (·.1) = body := by
      split
      · exact map_inFences body
      · rw [List.map_map]
        exact List.map_id body
    rw [List.map_cons, List.map_append, hbody, ih, List.takeWhile_append_dropWhile]

theorem fenceLine_number? (l : SourceLine) : ∀ n ∈ l.fenceLine.number?, n = l.number := by
  unfold fenceLine
  split
  · nofun
  · split <;> rintro n ⟨⟩ <;> rfl

theorem numbers_fenceLines (ls : List SourceLine) :
    ((ls.map fenceLine).filterMap FenceLine.number?).Sublist (ls.map (·.number)) := by
  induction ls with
  | nil => exact .refl _
  | cons l ls ih =>
    have hl := fenceLine_number? l
    rw [List.map_cons, List.map_cons, List.filterMap_cons]
    cases hn : l.fenceLine.number? with
    | none => exact ih.cons _
    | some n => exact hl n hn ▸ ih.cons_cons _

theorem filter_outside (ls : List SourceLine) : (ls.map (·, false)).filter (·.2) = [] := by
  simp

theorem numbers_fencesOf (ls : List SourceLine) :
    ((fencesOf ls).flatMap Fence.numbers).Sublist (((inFences ls).filter (·.2)).map (·.1.number)) := by
  fun_induction inFences ls with
  | case1 => rw [fencesOf_nil]; exact .refl _
  | case2 l rest hopen inner behind ih =>
    obtain ⟨label, hlabel⟩ := Option.isSome_iff_exists.mp hopen
    have hinner : ((inner.map (·, true)).filter (·.2)).map (·.1.number) = inner.map (·.number) := by
      rw [List.filter_map, List.map_map]
      simp [Function.comp_def]
    rw [fencesOf_opening hlabel, List.flatMap_cons, List.filter_cons_of_neg (by simp), List.filter_append,
      List.filter_append, filter_outside, List.nil_append, List.map_append, hinner]
    exact (numbers_fenceLines inner).append ih
  | case3 l rest hopen more ih =>
    rw [fencesOf_other (by simpa [opensFence] using hopen), List.filter_append, filter_outside, List.nil_append]
    exact ih

theorem blocksOf_nil (stop : Nat) : blocksOf stop [] = [] := by
  rw [blocksOf]

/-- Lines before the first header make no block. -/
theorem blocksOf_dropWhile (stop : Nat) (ls : List SourceLine) :
    blocksOf stop (ls.dropWhile fun l => !l.isHeader) = blocksOf stop ls := by
  cases ls with
  | nil => rfl
  | cons l rest =>
    cases hl : l.header? with
    | some h => rw [List.dropWhile_cons_of_neg (by simp [isHeader, hl])]
    | none =>
      rw [List.dropWhile_cons_of_pos (by simp [isHeader, hl])]
      conv_rhs => rw [blocksOf, hl]

theorem blocks_parse (text : String) :
    (parse text).blocks = blocksOf ((ofText text).length + 1) (ofText text) :=
  blocksOf_dropWhile _ _

theorem numbers_blocksOf (stop : Nat) (ls : List SourceLine) :
    ((blocksOf stop ls).flatMap Block.numbers).Sublist (((inBlocks ls).filter (·.2)).map (·.1.number)) := by
  fun_induction inBlocks ls with
  | case1 =>
    rw [blocksOf_nil]
    exact .refl _
  | case2 l rest body next ih =>
    rw [blocksOf, List.filter_cons_of_neg (by simp), List.filter_append, List.map_append]
    cases hl : l.header? with
    | some p =>
      rw [if_pos (by simp [isHeader, hl])]
      simp only [List.flatMap_cons, Block.numbers, fences_blockOf]
      exact (numbers_fencesOf body).append ih
    | none =>
      rw [if_neg (by simp [isHeader, hl])]
      exact ih.trans (List.sublist_append_right _ _)

theorem errors_blocksOf {stop : Nat} {ls : List SourceLine} {b : Block} (hb : b ∈ blocksOf stop ls) :
    ∃ stop', b.errors = errorsOf stop' b.fences := by
  fun_induction blocksOf stop ls with
  | case1 => cases hb
  | case2 l rest body next name qualifier hheader ih =>
    rcases List.mem_cons.mp hb with rfl | hb
    · exact ⟨_, rfl⟩
    · exact ih hb
  | case3 l rest next hnone ih => exact ih hb

theorem numbers_ofText (text : String) : (ofText text).map (·.number) = List.range' 1 (ofText text).length := by
  rw [ofText, List.map_map, List.length_map, List.length_zipIdx]
  exact List.zipIdx_map_snd 1 _

theorem numbers_parse (text : String) :
    (parse text).numbers.Sublist (((inBlocks (ofText text)).filter (·.2)).map (·.1.number)) := by
  rw [numbers, blocks_parse]
  exact numbers_blocksOf _ _

theorem inBlocks_increase (text : String) : ((inBlocks (ofText text)).map (·.1.number)).Pairwise (· < ·) := by
  have hlines := List.pairwise_lt_range' (s := 1) (n := (ofText text).length) 1
  rwa [← numbers_ofText, ← map_inBlocks (ofText text), List.map_map] at hlines

/-- What stands in the fences of a document has the numbers of its lines, one after another. -/
theorem numbers_increase (text : String) : (parse text).numbers.Pairwise (· < ·) :=
  ((inBlocks_increase text).sublist (List.filter_sublist.map _)).sublist (numbers_parse text)

theorem not_mem_numbers {text : String} {p : SourceLine × Bool} (hp : p ∈ inBlocks (ofText text)) (hout : p.2 = false) :
    p.1.number ∉ (parse text).numbers := by
  intro hmem
  obtain ⟨q, hq, hnumber⟩ := List.mem_map.mp ((numbers_parse text).subset hmem)
  obtain ⟨hin, hwithin⟩ := List.mem_filter.mp hq
  have hnodup := (inBlocks_increase text).imp Nat.ne_of_lt
  cases List.inj_on_of_nodup_map hnodup hin hp hnumber
  rw [hout] at hwithin
  cases hwithin

end Document

end Morphology
