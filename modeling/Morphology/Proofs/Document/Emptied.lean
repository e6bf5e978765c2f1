import Mathlib.Data.List.TakeWhile
import Morphology.Proofs.Document.Places

/-! Texts with some of their lines emptied. Where all of these stand within fences, nothing else is read in another
way, and what is left of each fence is the same. An empty line at the very end is no line, but it makes no
difference whether there is one. -/

namespace Morphology

open Chars

/-- The parts, counted from `n` on, with nothing in these. -/
def Chars.emptiedParts (ns : List Nat) (n : Nat) (parts : List (List Char)) : List (List Char) :=
  (parts.zipIdx n).map fun (part, k) => if k ∈ ns then [] else part

/-- The text with nothing on these lines. -/
def Text.emptied (ns : List Nat) (text : String) : String :=
  String.ofList (['\n'].intercalate (emptiedParts ns 1 (pieces (· == '\n') text.toList)))

example : Text.emptied [2] "a\nb\nc" = "a\n\nc" := by decide

def SourceLine.emptied (ns : List Nat) (l : SourceLine) : SourceLine :=
  if l.number ∈ ns then ⟨l.number, ""⟩ else l

/-- Not blank, and on another line than these. -/
def FenceLine.isOff (ns : List Nat) (l : FenceLine) : Bool := l.number?.any fun n => n ∉ ns

def Fence.without (ns : List Nat) (f : Fence) : Fence := { f with lines := f.lines.filter (FenceLine.isOff ns) }

/-- The block, but for its prose, its errors and what is said on these lines. -/
def Block.gist (ns : List Nat) (b : Block) : String × Option String × List Fence :=
  (b.name, b.qualifier, b.fences.map (Fence.without ns))

namespace SourceLine

variable {ns : List Nat} {l : SourceLine}

theorem emptied_of_not_mem (h : l.number ∉ ns) : l.emptied ns = l := if_neg h

/-- An emptied line is no header and no mark of a fence. -/
theorem emptied_plain (ns : List Nat) {p : SourceLine → Bool} (hp : ∀ n, p ⟨n, ""⟩ = false) (h : p l = false) :
    p (l.emptied ns) = false := by
  unfold emptied
  split
  · exact hp _
  · exact h

end SourceLine

namespace Document

open SourceLine

section Within

variable {ns : List Nat}

theorem isOff_fenceLine (ns : List Nat) (l : SourceLine) :
    l.fenceLine.isOff ns = (l.fenceLine.number?.isSome && decide (l.number ∉ ns)) := by
  have hl := fenceLine_number? l
  unfold FenceLine.isOff
  cases hn : l.fenceLine.number? with
  | none => rfl
  | some n => simp [hl n hn]

theorem filter_emptied (ls : List SourceLine) :
    ((ls.map (emptied ns)).map fenceLine).filter (FenceLine.isOff []) =
      (ls.map fenceLine).filter (FenceLine.isOff ns) := by
  induction ls with
  | nil => rfl
  | cons l ls ih =>
    by_cases h : l.number ∈ ns
    · have hout : l.fenceLine.isOff ns = false := by simp [isOff_fenceLine, h]
      have hempty : (l.emptied ns).fenceLine = .blank := by rw [emptied, if_pos h]; rfl
      rw [List.map_cons, List.map_cons, List.map_cons, List.filter_cons, hempty, List.filter_cons, hout, ih]
      rfl
    · have hsame : l.fenceLine.isOff [] = l.fenceLine.isOff ns := by simp [isOff_fenceLine, h]
      rw [List.map_cons, List.map_cons, List.map_cons, emptied_of_not_mem h, List.filter_cons, List.filter_cons, hsame,
        ih]

/-- Where the lines that cut a text are not emptied, the text is cut at the same places. -/
theorem cut_emptied (p : SourceLine → Bool) (hp : ∀ n, p ⟨n, ""⟩ = false) (ls : List SourceLine)
    (h : ∀ l ∈ (ls.dropWhile fun m => !p m).head?, l.number ∉ ns) :
    (ls.map (emptied ns)).takeWhile (fun m => !p m) = (ls.takeWhile fun m => !p m).map (emptied ns) ∧
      (ls.map (emptied ns)).dropWhile (fun m => !p m) = (ls.dropWhile fun m => !p m).map (emptied ns) := by
  have hbefore : ∀ m ∈ (ls.takeWhile fun m => !p m).map (emptied ns), p m = false := by
    intro m hm
    obtain ⟨l, hl, rfl⟩ := List.mem_map.mp hm
    exact emptied_plain ns hp (by simpa using List.mem_takeWhile_imp hl)
  have hcut : ∀ m ∈ ((ls.dropWhile fun m => !p m).map (emptied ns)).head?, p m = true := by
    intro m hm
    rw [List.head?_map] at hm
    obtain ⟨l, hl, rfl⟩ := Option.map_eq_some_iff.mp hm
    rw [emptied_of_not_mem (h l hl)]
    exact head_dropWhile p ls l hl
  have hparts := cut_of_head p hbefore hcut
  rwa [← List.map_append, List.takeWhile_append_dropWhile] at hparts

theorem head_inFences {ls : List SourceLine} (h : ∀ p ∈ inFences ls, p.2 = false → p.1.number ∉ ns) :
    ∀ l ∈ ls.head?, l.number ∉ ns := by
  cases ls with
  | nil => nofun
  | cons l rest =>
    rintro _ ⟨⟩
    refine h (l, false) ?_ rfl
    rw [inFences]
    split <;> exact List.mem_cons_self

theorem head_inBlocks {ls : List SourceLine} (h : ∀ p ∈ inBlocks ls, p.2 = false → p.1.number ∉ ns) :
    ∀ l ∈ ls.head?, l.number ∉ ns := by
  cases ls with
  | nil => nofun
  | cons l rest =>
    rintro _ ⟨⟩
    refine h (l, false) ?_ rfl
    rw [inBlocks]
    exact List.mem_cons_self

theorem fencesOf_emptied {ls : List SourceLine} (h : ∀ p ∈ inFences ls, p.2 = false → p.1.number ∉ ns) :
    (fencesOf (ls.map (emptied ns))).map (Fence.without []) = (fencesOf ls).map (Fence.without ns) := by
  fun_induction inFences ls with
  | case1 => simp [fencesOf_nil]
  | case2 l rest hopen inner behind ih =>
    simp only [List.forall_mem_cons, List.forall_mem_append, List.forall_mem_map, forall_const] at h
    obtain ⟨hl, -, hclose, hrest⟩ := h
    obtain ⟨label, hlabel⟩ := Option.isSome_iff_exists.mp hopen
    obtain ⟨htake, hdrop⟩ := cut_emptied closesFence (fun _ => rfl) rest fun m hm => by
      obtain ⟨_, hbehind⟩ := List.head?_eq_some_iff.mp hm
      exact hclose m (by simp [behind, hbehind])
    rw [List.map_cons, emptied_of_not_mem hl, fencesOf_opening hlabel, fencesOf_opening hlabel, htake, hdrop,
      List.map_cons, List.map_cons, ← List.map_drop, ih hrest, List.isEmpty_map]
    congr 1
    simp only [Fence.without, filter_emptied]
  | case3 l rest hopen more ih =>
    simp only [List.forall_mem_append, List.forall_mem_map, forall_const] at h
    obtain ⟨hmore, hrest⟩ := h
    have hnone : Line.fenceOpening? l.text.toList = none := by simpa [opensFence] using hopen
    obtain ⟨-, hdrop⟩ := cut_emptied opensFence (fun _ => rfl) rest (head_inFences hrest)
    rw [List.map_cons, emptied_of_not_mem (hmore l List.mem_cons_self), fencesOf_other hnone, fencesOf_other hnone,
      hdrop, ih hrest]

theorem gist_blockOf (ns : List Nat) (n : Nat) (name : List Char) (qualifier : Option (List Char))
    (body : List SourceLine) (stop : Nat) : (blockOf n name qualifier body stop).gist ns =
      (String.ofList name, qualifier.map String.ofList, (fencesOf body).map (Fence.without ns)) := by
  rw [Block.gist, fences_blockOf]
  rfl

theorem blocksOf_emptied {ls : List SourceLine} (h : ∀ p ∈ inBlocks ls, p.2 = false → p.1.number ∉ ns)
    (stop stop' : Nat) :
    (blocksOf stop' (ls.map (emptied ns))).map (Block.gist []) = (blocksOf stop ls).map (Block.gist ns) := by
  fun_induction inBlocks ls with
  | case1 => simp [blocksOf]
  | case2 l rest body next ih =>
    simp only [List.forall_mem_cons, List.forall_mem_append, forall_const] at h
    obtain ⟨hl, hbody, hnext⟩ := h
    obtain ⟨htake, hdrop⟩ := cut_emptied isHeader (fun _ => rfl) rest (head_inBlocks hnext)
    rw [List.map_cons, emptied_of_not_mem hl, blocksOf, blocksOf]
    simp only [htake, hdrop]
    cases hheader : l.header? with
    | none => exact ih hnext
    | some p =>
      rw [if_pos (by simp [isHeader, hheader])] at hbody
      simp only [List.map_cons, gist_blockOf]
      exact congrArg₂ (fun fences blocks => (_, _, fences) :: blocks) (fencesOf_emptied hbody) (ih hnext)

end Within

/-- A line that does not cut belongs to what is before the cut, if there is none. -/
theorem cut_concat {p : SourceLine → Bool} {b : SourceLine} (hp : p b = false) (ls : List SourceLine) :
    (ls.dropWhile (fun m => !p m) = [] ∧ (ls ++ [b]).takeWhile (fun m => !p m) = ls.takeWhile (fun m => !p m) ++ [b] ∧
        (ls ++ [b]).dropWhile (fun m => !p m) = []) ∨
      ∃ m rest, ls.dropWhile (fun m => !p m) = m :: rest ∧
        (ls ++ [b]).takeWhile (fun m => !p m) = ls.takeWhile (fun m => !p m) ∧
        (ls ++ [b]).dropWhile (fun m => !p m) = m :: (rest ++ [b]) := by
  induction ls with
  | nil => simp [hp]
  | cons l ls ih =>
    cases hl : p l with
    | true => exact Or.inr ⟨l, ls, by simp [hl], by simp [hl], by simp [hl]⟩
    | false => simpa [hl] using ih

section Concat

variable (n : Nat)

theorem fencesOf_concat (ls : List SourceLine) :
    (fencesOf (ls ++ [⟨n, ""⟩])).map (Fence.without []) = (fencesOf ls).map (Fence.without []) := by
  fun_induction inFences ls with
  | case1 => rw [List.nil_append, fencesOf_other rfl]; rfl
  | case2 l rest hopen inner behind ih =>
    obtain ⟨label, hlabel⟩ := Option.isSome_iff_exists.mp hopen
    rw [List.cons_append, fencesOf_opening hlabel, fencesOf_opening hlabel]
    obtain ⟨hnil, htake, hdrop⟩ | ⟨m, more, hcons, htake, hdrop⟩ :=
      cut_concat (p := closesFence) (b := ⟨n, ""⟩) rfl rest
    · have hblank : FenceLine.isOff [] (fenceLine ⟨n, ""⟩) = false := rfl
      rw [htake, hdrop, hnil]
      simp [Fence.without, hblank]
    · rw [htake, hdrop, hcons]
      have ih : (fencesOf (more ++ [⟨n, ""⟩])).map (Fence.without []) = (fencesOf more).map (Fence.without []) := by
        simpa [behind, hcons] using ih
      simp [ih]
  | case3 l rest hother more ih =>
    have hnone : Line.fenceOpening? l.text.toList = none := by simpa [opensFence] using hother
    rw [List.cons_append, fencesOf_other hnone, fencesOf_other hnone]
    obtain ⟨hnil, -, hdrop⟩ | ⟨m, next, hcons, -, hdrop⟩ := cut_concat (p := opensFence) (b := ⟨n, ""⟩) rfl rest
    · rw [hdrop, hnil]
    · rw [hdrop, hcons]
      rw [hcons] at ih
      exact ih

theorem blocksOf_concat (stop stop' : Nat) (ls : List SourceLine) :
    (blocksOf stop (ls ++ [⟨n, ""⟩])).map (Block.gist []) = (blocksOf stop' ls).map (Block.gist []) := by
  fun_induction inBlocks ls with
  | case1 =>
    have hnone : blocksOf stop [⟨n, ""⟩] = [] := by
      rw [← blocksOf_dropWhile]
      exact blocksOf_nil stop
    rw [List.nil_append, hnone, blocksOf_nil]
  | case2 l rest body next ih =>
    rw [List.cons_append, blocksOf, blocksOf]
    obtain ⟨hnil, htake, hdrop⟩ | ⟨m, more, hcons, htake, hdrop⟩ := cut_concat (p := isHeader) (b := ⟨n, ""⟩) rfl rest
    · simp only [htake, hdrop, hnil, blocksOf_nil]
      cases l.header? with
      | none => rfl
      | some p => simp only [List.map_cons, gist_blockOf, fencesOf_concat]
    · have ih : (blocksOf stop (m :: (more ++ [⟨n, ""⟩]))).map (Block.gist []) =
          (blocksOf stop' (m :: more)).map (Block.gist []) := by
        simpa [next, hcons] using ih
      simp only [htake, hdrop, hcons]
      cases l.header? with
      | none => exact ih
      | some p => simp only [List.map_cons, gist_blockOf, ih]

end Concat

section Lines

variable (ns : List Nat)

/-- The rows that the parts of a text make. -/
def lineRows (parts : List (List Char)) : List String :=
  (finishLines parts).map fun line => String.ofList (dropReturn line)

theorem numbered_emptiedParts (n : Nat) (parts : List (List Char)) :
    numbered n (lineRows (emptiedParts ns n parts)) = (numbered n (lineRows parts)).map (emptied ns) ∨
      ∃ k, numbered n (lineRows (emptiedParts ns n parts)) ++ [⟨k, ""⟩] =
        (numbered n (lineRows parts)).map (emptied ns) := by
  induction parts generalizing n with
  | nil => exact Or.inl rfl
  | cons part parts ih =>
    cases parts with
    | nil =>
      -- Behind the last break, nothing at all is no line.
      by_cases hn : n ∈ ns
      · cases part with
        | nil => exact Or.inl (by simp [emptiedParts, lineRows, finishLines])
        | cons c cs => exact Or.inr ⟨n, by simp [emptiedParts, lineRows, finishLines, emptied, hn]⟩
      · refine Or.inl ?_
        cases part <;> simp [emptiedParts, lineRows, finishLines, emptied, hn]
    | cons part' parts =>
      have hhead : emptied ns ⟨n, String.ofList (dropReturn (dropReturn part))⟩ =
          ⟨n, String.ofList (dropReturn (dropReturn (if n ∈ ns then [] else part)))⟩ := by
        unfold emptied
        split <;> rfl
      have hrows {part rest} (hne : rest ≠ []) :
          lineRows (part :: rest) = String.ofList (dropReturn (dropReturn part)) :: lineRows rest := by
        rw [lineRows, finishLines_cons hne]
        rfl
      have hparts : emptiedParts ns n (part :: part' :: parts) =
          (if n ∈ ns then [] else part) :: emptiedParts ns (n + 1) (part' :: parts) := rfl
      rw [hparts, hrows (by simp [emptiedParts]), hrows (List.cons_ne_nil _ _), numbered_cons, numbered_cons,
        List.map_cons, hhead]
      exact (ih (n + 1)).imp (congrArg _) fun ⟨k, hk⟩ => ⟨k, congrArg _ hk⟩

theorem ofText_emptied (text : String) :
    ofText (Text.emptied ns text) = (ofText text).map (emptied ns) ∨
      ∃ n, ofText (Text.emptied ns text) ++ [⟨n, ""⟩] = (ofText text).map (emptied ns) := by
  have hpieces : pieces (· == '\n') (Text.emptied ns text).toList =
      emptiedParts ns 1 (pieces (· == '\n') text.toList) := by
    rw [Text.emptied, String.toList_ofList]
    refine pieces_intercalate (by rfl) ?_ fun part hpart => ?_
    · simp [emptiedParts, pieces_ne_nil]
    · obtain ⟨⟨part', k⟩, hin, rfl⟩ := List.mem_map.mp hpart
      dsimp only
      split
      · nofun
      · exact (mem_pieces (List.fst_mem_of_mem_zipIdx hin)).2
  have hrows (text : String) : ofText text = numbered 1 (lineRows (pieces (· == '\n') text.toList)) :=
    ofText_eq_numbered text
  rw [hrows, hrows, hpieces]
  exact numbered_emptiedParts ns 1 _

end Lines

theorem gist_parse_emptied {ns : List Nat} {text : String} (h : ∀ n ∈ ns, n ∈ (parse text).numbers) :
    (parse (Text.emptied ns text)).blocks.map (Block.gist []) = (parse text).blocks.map (Block.gist ns) := by
  have hspared : ∀ p ∈ inBlocks (ofText text), p.2 = false → p.1.number ∉ ns :=
    fun p hp hout hmem => not_mem_numbers hp hout (h _ hmem)
  have hgist := blocksOf_emptied hspared ((ofText text).length + 1)
  rw [blocks_parse, blocks_parse]
  obtain hlines | ⟨n, hlines⟩ := ofText_emptied ns text
  · rw [hlines]
    exact hgist _
  · rw [← blocksOf_concat n ((ofText (Text.emptied ns text)).length + 1), hlines]
    exact hgist _

/-- Where nothing but statements is left, only fences can be faulty. -/
theorem unclosed_of_emptied {ns : List Nat} {text : String} (h : ∀ n ∈ ns, n ∈ (parse text).numbers)
    (hinvalid : ∀ n ∈ (parse text).invalidLines, n ∈ ns) {e : ParseError}
    (he : e ∈ (parse (Text.emptied ns text)).errors) : ∃ opened before, e.fault = .unclosedFence opened before := by
  obtain ⟨b', hb', he⟩ := List.mem_flatMap.mp he
  obtain ⟨stop, herrors⟩ := errors_blocksOf (blocks_parse _ ▸ hb')
  rw [herrors] at he
  rcases List.mem_append.mp he with he | he
  · -- The line at fault would be one that is not emptied.
    obtain ⟨f', hf', he⟩ := List.mem_flatMap.mp he
    obtain ⟨l, hl, he⟩ := List.mem_filterMap.mp he
    cases l with
    | statement n s => cases he
    | blank => cases he
    | invalid n raw =>
      obtain ⟨b, hb, hgist⟩ := List.mem_map.mp (gist_parse_emptied h ▸ List.mem_map_of_mem hb')
      have hfences : b.fences.map (Fence.without ns) = b'.fences.map (Fence.without []) :=
        congrArg (fun gist => gist.2.2) hgist
      obtain ⟨f, hf, hwithout⟩ := List.mem_map.mp (hfences ▸ List.mem_map_of_mem hf')
      have hleft : .invalid n raw ∈ (f.without ns).lines := by
        rw [hwithout]
        exact List.mem_filter.mpr ⟨hl, by simp [FenceLine.isOff, FenceLine.number?]⟩
      obtain ⟨hin, hoff⟩ := List.mem_filter.mp hleft
      have hn : n ∈ (parse text).invalidLines :=
        List.mem_flatMap.mpr ⟨b, hb, List.mem_flatMap.mpr ⟨f, hf, List.mem_filterMap.mpr ⟨_, hin, rfl⟩⟩⟩
      simp [FenceLine.isOff, FenceLine.number?, hinvalid n hn] at hoff
  · obtain ⟨f, -, rfl⟩ := List.mem_map.mp he
    exact ⟨_, _, rfl⟩

end Document

end Morphology
