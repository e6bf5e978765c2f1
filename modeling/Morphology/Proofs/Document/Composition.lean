import Morphology.Proofs.Document.Places
import Morphology.Proofs.Statement.Shift

/-! Texts put together. Where the second one starts with a header, the document is made of the blocks of both: the
header ends what the first text left open just as its own end does. -/

namespace Morphology

def SourceLine.shift (n : Nat) (l : SourceLine) : SourceLine := { l with number := l.number + n }

def FenceLine.shift (n : Nat) : FenceLine → FenceLine
  | statement line s => .statement (line + n) s
  | invalid line raw => .invalid (line + n) raw
  | blank => .blank

def Fence.shift (n : Nat) (f : Fence) : Fence := { f with line := f.line + n, lines := f.lines.map (FenceLine.shift n) }

def Segment.shift (n : Nat) : Segment → Segment
  | prose text => .prose text
  | fence f => .fence (f.shift n)

/-- The block further down, with its errors. -/
def Block.shift (n : Nat) (b : Block) : Block where
  name := b.name
  qualifier := b.qualifier
  line := b.line + n
  segments := b.segments.map (Segment.shift n)
  errors := b.errors.map (ParseError.shift n)

namespace Document

open SourceLine

section Shift

variable (n : Nat)

theorem fenceLine_shift (l : SourceLine) : (l.shift n).fenceLine = l.fenceLine.shift n := by
  unfold fenceLine shift
  dsimp only
  rw [Statement.parse_shift]
  split
  · rfl
  · cases Statement.parse l.text l.number <;> rfl

theorem lineError?_shift (l : FenceLine) : lineError? (l.shift n) = (lineError? l).map (ParseError.shift n) := by
  cases l with
  | statement line s => rfl
  | blank => rfl
  | invalid line raw =>
    simp only [lineError?, FenceLine.shift, Statement.parse_shift]
    cases Statement.parse raw line <;> rfl

theorem takeWhile_shift (p : SourceLine → Bool) (hp : ∀ l, p (l.shift n) = p l) (ls : List SourceLine) :
    (ls.map (shift n)).takeWhile p = (ls.takeWhile p).map (shift n) ∧
      (ls.map (shift n)).dropWhile p = (ls.dropWhile p).map (shift n) := by
  rw [List.takeWhile_map, List.dropWhile_map, show p ∘ shift n = p from funext hp]
  exact ⟨rfl, rfl⟩

theorem prose_shift (ls : List SourceLine) : prose (ls.map (shift n)) = prose ls := by
  rw [prose, List.map_map]
  rfl

theorem segmentsOf_shift (ls : List SourceLine) :
    segmentsOf (ls.map (shift n)) = (segmentsOf ls).map (Segment.shift n) := by
  fun_induction segmentsOf ls with
  | case1 => rw [List.map_nil, segmentsOf]; rfl
  | case2 l rest label hlabel inner behind ih =>
    obtain ⟨htake, hdrop⟩ := takeWhile_shift n (fun m => !m.closesFence) (fun _ => rfl) rest
    have hlines : (inner.map (shift n)).map fenceLine = (inner.map fenceLine).map (FenceLine.shift n) := by
      rw [List.map_map, List.map_map]
      exact List.map_congr_left fun m _ => fenceLine_shift n m
    rw [List.map_cons, segmentsOf, show Line.fenceOpening? (l.shift n).text.toList = some label from hlabel]
    simp only [htake, hdrop, ← List.map_drop]
    rw [ih, hlines, List.isEmpty_map]
    rfl
  | case3 l rest hnone more ih =>
    obtain ⟨htake, hdrop⟩ := takeWhile_shift n (fun m => !m.opensFence) (fun _ => rfl) rest
    rw [List.map_cons, segmentsOf, show Line.fenceOpening? (l.shift n).text.toList = none from hnone]
    simp only [htake, hdrop]
    rw [ih, ← List.map_cons, prose_shift]
    rfl

theorem filterMap_fence?_shift (segments : List Segment) :
    (segments.map (Segment.shift n)).filterMap Segment.fence? =
      (segments.filterMap Segment.fence?).map (Fence.shift n) := by
  rw [List.filterMap_map, List.map_filterMap]
  congr 1
  funext s
  cases s <;> rfl

theorem fences_shift (b : Block) : (b.shift n).fences = b.fences.map (Fence.shift n) := by
  rw [Block.fences_eq, Block.fences_eq]
  exact filterMap_fence?_shift n b.segments

theorem fencesOf_shift (ls : List SourceLine) : fencesOf (ls.map (shift n)) = (fencesOf ls).map (Fence.shift n) := by
  rw [fencesOf, segmentsOf_shift]
  exact filterMap_fence?_shift n (segmentsOf ls)

theorem errorsOf_shift (stop : Nat) (fences : List Fence) :
    errorsOf (stop + n) (fences.map (Fence.shift n)) = (errorsOf stop fences).map (ParseError.shift n) := by
  have hlines (f : Fence) :
      (f.shift n).lines.filterMap lineError? = (f.lines.filterMap lineError?).map (ParseError.shift n) := by
    rw [Fence.shift, List.filterMap_map, List.map_filterMap]
    exact congrArg (List.filterMap · f.lines) (funext (lineError?_shift n))
  rw [errorsOf, errorsOf, List.flatMap_map, List.map_append, List.map_flatMap, List.filter_map, List.map_map,
    List.map_map]
  simp only [hlines]
  rfl

theorem blockOf_shift (line : Nat) (name : List Char) (qualifier : Option (List Char)) (body : List SourceLine)
    (stop : Nat) : blockOf (line + n) name qualifier (body.map (shift n)) (stop + n) =
      (blockOf line name qualifier body stop).shift n := by
  rw [blockOf_eq, blockOf_eq, segmentsOf_shift, fencesOf_shift, errorsOf_shift]
  rfl

theorem blocksOf_shift (stop : Nat) (ls : List SourceLine) :
    blocksOf (stop + n) (ls.map (shift n)) = (blocksOf stop ls).map (Block.shift n) := by
  fun_induction blocksOf stop ls with
  | case1 => rw [List.map_nil, blocksOf]; rfl
  | case2 l rest body next name qualifier hheader ih =>
    obtain ⟨htake, hdrop⟩ := takeWhile_shift n (fun m => !m.isHeader) (fun _ => rfl) rest
    rw [List.map_cons, blocksOf, show (l.shift n).header? = some (name, qualifier) from hheader]
    have hstop : ((next.map (shift n)).head?.map (·.number)).getD (stop + n) =
        (next.head?.map (·.number)).getD stop + n := by
      cases next <;> rfl
    simp only [htake, hdrop]
    rw [ih, hstop, List.map_cons, ← blockOf_shift]
    rfl
  | case3 l rest next hnone ih =>
    obtain ⟨htake, hdrop⟩ := takeWhile_shift n (fun m => !m.isHeader) (fun _ => rfl) rest
    rw [List.map_cons, blocksOf, show (l.shift n).header? = none from hnone]
    simp only [hdrop]
    exact ih

end Shift

section Append

variable {l : SourceLine} (hl : l.isHeader = true) (ls rest : List SourceLine)

include hl

theorem cut_append : (ls ++ l :: rest).takeWhile (fun m => !m.isHeader) = ls.takeWhile (fun m => !m.isHeader) ∧
    (ls ++ l :: rest).dropWhile (fun m => !m.isHeader) = ls.dropWhile (fun m => !m.isHeader) ++ l :: rest := by
  induction ls with
  | nil => simp [hl]
  | cons m ls ih =>
    cases hm : m.isHeader with
    | true => simp [hm]
    | false => simpa [hm] using ih

/-- What stands before a header makes its blocks as if nothing came behind it. -/
theorem blocksOf_append (stop : Nat) :
    blocksOf stop (ls ++ l :: rest) = blocksOf l.number ls ++ blocksOf stop (l :: rest) := by
  fun_induction blocksOf l.number ls with
  | case1 => rfl
  | case2 m ls body next name qualifier hheader ih =>
    obtain ⟨htake, hdrop⟩ := cut_append hl ls rest
    have hstop : ((next ++ l :: rest).head?.map (·.number)).getD stop = (next.head?.map (·.number)).getD l.number := by
      cases next <;> rfl
    rw [List.cons_append, blocksOf, hheader]
    simp only [htake, hdrop]
    rw [ih, hstop]
    rfl
  | case3 m ls next hnone ih =>
    obtain ⟨-, hdrop⟩ := cut_append hl ls rest
    rw [List.cons_append, blocksOf, hnone]
    simp only [hdrop]
    exact ih

end Append

end Document

theorem Chars.lines_append {cs : List Char} (h : cs = [] ∨ ∃ u, cs = u ++ ['\n']) (rest : List Char) :
    lines (cs ++ rest) = lines cs ++ lines rest := by
  obtain rfl | ⟨u, rfl⟩ := h
  · rfl
  · rw [List.append_assoc, List.singleton_append, lines_append_cons, lines_append_cons, show lines [] = [] from rfl,
      List.append_nil]

namespace SourceLine

theorem numbered_shift (m n : Nat) (rows : List String) : numbered (m + n) rows = (numbered m rows).map (shift n) := by
  induction rows generalizing m with
  | nil => rfl
  | cons row rows ih => rw [numbered_cons, numbered_cons, List.map_cons, Nat.add_right_comm, ih]; rfl

theorem ofText_append {t₁ : String} (h : t₁ = "" ∨ ∃ u, t₁ = u ++ "\n") (t₂ : String) :
    ofText (t₁ ++ t₂) = ofText t₁ ++ (ofText t₂).map (shift (Text.lines t₁).length) := by
  have hchars : t₁.toList = [] ∨ ∃ u, t₁.toList = u ++ ['\n'] := by
    obtain rfl | ⟨u, rfl⟩ := h
    · exact Or.inl rfl
    · exact Or.inr ⟨u.toList, String.toList_append⟩
  rw [ofText_eq_numbered, ofText_eq_numbered, ofText_eq_numbered, ← numbered_shift, String.toList_append,
    Chars.lines_append hchars, List.map_append, numbered_append, List.length_map, Text.lines, List.length_map]

end SourceLine

namespace Document

open SourceLine

/-- A text that starts with a header is read behind another one as it is read alone, only further down. -/
theorem parse_append {t₁ t₂ : String} (h₁ : t₁ = "" ∨ ∃ u, t₁ = u ++ "\n")
    (h₂ : ∃ l ∈ (ofText t₂).head?, l.isHeader = true) :
    parse (t₁ ++ t₂) = ⟨(parse t₁).preamble,
      (parse t₁).blocks ++ (parse t₂).blocks.map (Block.shift (Text.lines t₁).length)⟩ := by
  obtain ⟨l, hhead, hl⟩ := h₂
  obtain ⟨rest, hrest⟩ := List.head?_eq_some_iff.mp hhead
  have hnumber : l.number = 1 := by
    have hnumbers := numbers_ofText t₂
    rw [hrest] at hnumbers
    exact (List.cons.inj hnumbers).1
  have hlength : (Text.lines t₁).length = (ofText t₁).length := by simp [Text.lines, ofText]
  have hlines := ofText_append h₁ t₂
  rw [hrest, List.map_cons] at hlines
  have hblocks : (parse (t₁ ++ t₂)).blocks =
      (parse t₁).blocks ++ (parse t₂).blocks.map (Block.shift (Text.lines t₁).length) := by
    rw [blocks_parse, blocks_parse, blocks_parse, ← blocksOf_shift, hrest, hlines, List.map_cons,
      blocksOf_append (l := l.shift _) hl]
    congr 1
    · congr 1
      show l.number + _ = _
      rw [hnumber, hlength, Nat.add_comm]
    · congr 1
      simp [hlength]
      omega
  have hpreamble : (parse (t₁ ++ t₂)).preamble = (parse t₁).preamble := by
    show prose _ = prose _
    rw [hlines, (cut_append (l := l.shift _) hl _ _).1]
  rw [← hblocks, ← hpreamble]

end Document

end Morphology
