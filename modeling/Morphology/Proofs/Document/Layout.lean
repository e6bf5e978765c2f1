import Mathlib.Algebra.GroupWithZero.Nat
import Morphology.Proofs.Document.Header
import Morphology.Proofs.Document.Rows

/-! The lines that a document is rendered on. `Document.Legible` is what holds of every document read from some
text; such a document, rendered and read again, is made of the same lines in the same places, so that each header,
each label and each statement is what its own line is read as. -/

namespace Morphology

open Chars Text

/-! ## Rows -/

namespace FenceLine

def Legible : FenceLine → Prop
  | statement _ s => s.Legible
  | invalid _ raw => IsRow raw ∧ Text.isBlank raw = false ∧ Line.header? raw.toList = none ∧
      Line.isFenceClosing raw.toList = false ∧ ∀ line s, Statement.parse raw line ≠ .ok s
  | blank => True

/-- The same line elsewhere. -/
def onLine (n : Nat) : FenceLine → FenceLine
  | statement _ s => .statement n s
  | invalid _ raw => .invalid n raw
  | blank => .blank

/-- What the line is read as once it is rendered. -/
def reread (l : FenceLine) : FenceLine := SourceLine.fenceLine ⟨0, l.render⟩

end FenceLine

namespace Segment

def isFence : Segment → Bool
  | prose _ => false
  | fence _ => true

def Legible : Segment → Prop
  | prose text => ∃ rows, rows ≠ [] ∧ text = ofRows rows ∧ ∀ row ∈ rows, IsRow row ∧
      Line.header? row.toList = none ∧ Line.fenceOpening? row.toList = none
  | fence f => (∀ label ∈ f.label, IsTidy label) ∧ ∀ l ∈ f.lines, l.Legible

def rows : Segment → List String
  | prose text => (Chars.lines text.toList).map String.ofList
  | fence f => Document.fenceText f.label :: (f.lines.map FenceLine.render ++ [":::"])

/-- The number of lines that the segment is rendered on. -/
def height : Segment → Nat
  | prose text => breaks text
  | fence f => f.lines.length + 2

def onLine (n : Nat) : Segment → Segment
  | prose text => .prose text
  | fence f => .fence { f with line := n, lines := (f.lines.zipIdx (n + 1)).map fun (l, k) => l.onLine k }

def fromLine (n : Nat) : List Segment → List Segment
  | [] => []
  | s :: segments => s.onLine n :: fromLine (n + s.height) segments

def reread : Segment → Segment
  | prose text => .prose text
  | fence f => .fence
      { label := ((Line.fenceOpening? (Document.fenceText f.label).toList).getD none).map String.ofList
        line := 0
        lines := f.lines.map FenceLine.reread
        closed := true }

end Segment

namespace Block

structure Legible (b : Block) : Prop where
  name : IsTidy b.name
  qualifier : ∀ q ∈ b.qualifier, Text.collapse q = q
  /-- There is no prose right behind prose. -/
  apart : b.segments.IsChain fun s t => s.isFence = true ∨ t.isFence = true
  segments : ∀ s ∈ b.segments, s.Legible

def header (b : Block) : String := renderHeader b.name b.qualifier

def rows (b : Block) : List String := b.header :: b.segments.flatMap Segment.rows

def height (b : Block) : Nat := 1 + (b.segments.map Segment.height).sum

/-- The same block elsewhere, with the errors of its invalid lines. -/
def onLine (n : Nat) (b : Block) : Block :=
  let moved : Block := { b with line := n, segments := Segment.fromLine (n + 1) b.segments }
  { moved with errors := moved.fences.flatMap fun fence => fence.lines.filterMap Document.lineError? }

def fromLine (n : Nat) : List Block → List Block
  | [] => []
  | b :: blocks => b.onLine n :: fromLine (n + b.height) blocks

def reread (b : Block) : Block :=
  let header := Line.header? b.header.toList
  { name := (header.map fun (name, _) => String.ofList name).getD b.name
    qualifier := header.bind fun (_, qualifier) => qualifier.map String.ofList
    line := 0
    segments := b.segments.map Segment.reread }

end Block

namespace Document

structure Legible (d : Document) : Prop where
  preamble : ∃ rows, d.preamble = ofRows rows ∧ ∀ row ∈ rows, IsRow row ∧ Line.header? row.toList = none
  blocks : ∀ b ∈ d.blocks, b.Legible

/-- The document with the lines and the errors that it has in its own text. -/
def renumbered (d : Document) : Document :=
  { d with blocks := Block.fromLine (breaks d.preamble + 1) d.blocks }

def reread (d : Document) : Document :=
  { d with blocks := d.blocks.map Block.reread }

end Document

/-! ## What a row is read as -/

section

variable {n : Nat} {row : String}

theorem FenceLine.Legible.isRow {l : FenceLine} (h : l.Legible) : IsRow l.render := by
  cases l with
  | statement _ s => exact isRow_of_blanks (Statement.render_blanks h)
  | invalid _ raw => exact h.1
  | blank => exact isRow_of_blanks (by simp [FenceLine.render])

/-- No line within a fence ends it. -/
theorem FenceLine.Legible.within {l : FenceLine} (h : l.Legible) :
    Line.header? l.render.toList = none ∧ Line.isFenceClosing l.render.toList = false := by
  cases l with
  | statement _ s =>
    obtain ⟨c, cs, hs, hc⟩ := Statement.render_head h
    have hmark : ∀ c ∈ ['*', '+', '<', 'h'], c ≠ '#' ∧ c ≠ ':' := List.forall_iff_forall_mem.mp (by decide)
    rw [FenceLine.render, hs]
    exact ⟨Line.not_header (hmark c hc).1 cs, Line.not_closing (hmark c hc).2 cs⟩
  | invalid _ raw => exact ⟨h.2.2.1, h.2.2.2.1⟩
  | blank => exact ⟨rfl, rfl⟩

theorem fenceLine_onLine (n : Nat) (row : String) :
    SourceLine.fenceLine ⟨n, row⟩ = (SourceLine.fenceLine ⟨0, row⟩).onLine n := by
  unfold SourceLine.fenceLine
  simp only
  split
  · rfl
  · have hline (s) := @Statement.parse_eq_ok_congr row s n 0
    cases hn : Statement.parse row n with
    | ok s => rw [(hline s).mp hn]; rfl
    | error e =>
      cases h0 : Statement.parse row 0 with
      | ok s => rw [(hline s).mpr h0] at hn; cases hn
      | error e => rfl

theorem fenceLine_render (n : Nat) (l : FenceLine) : SourceLine.fenceLine ⟨n, l.render⟩ = l.reread.onLine n :=
  fenceLine_onLine n l.render

end

theorem fenceText_toList (label : Option String) :
    (Document.fenceText label).toList = ':' :: ':' :: ':' :: 'c' :: 'n' :: 'l' ::
      ((label.map fun label => ' ' :: label.toList).getD []) := by
  cases label <;> simp [Document.fenceText]

theorem fenceOpening?_fenceText {label : Option String} (h : ∀ l ∈ label, IsTidy l) :
    ∃ read, Line.fenceOpening? (Document.fenceText label).toList = some read := by
  rw [fenceText_toList]
  cases label with
  | none => exact ⟨none, rfl⟩
  | some l => exact ⟨_, Line.fenceOpening?_label (isTidy_iff.mp (h l rfl)).2⟩

theorem isRow_fenceText {label : Option String} (h : ∀ l ∈ label, IsTidy l) : IsRow (Document.fenceText label) := by
  refine isRow_of_blanks fun c hc hb => ?_
  rw [fenceText_toList] at hc
  simp only [List.mem_cons] at hc
  rcases hc with rfl | rfl | rfl | rfl | rfl | rfl | hc
  all_goals try cases hb
  cases label with
  | none => cases hc
  | some l =>
    rcases List.mem_cons.mp hc with rfl | hc
    · rfl
    · exact eq_space_of_mem_collapse hb ((isTidy_iff.mp (h l rfl)).2 ▸ hc)

namespace Segment

variable {s : Segment} {segments : List Segment}

theorem rows_prose {rows : List String} (h : ∀ row ∈ rows, IsRow row) : (prose (ofRows rows)).rows = rows := by
  rw [Segment.rows, lines_ofRows h, List.map_map]
  exact (List.map_congr_left fun row _ => String.ofList_toList).trans (List.map_id rows)

theorem Legible.rows (h : s.Legible) :
    s.render = ofRows s.rows ∧ s.rows.length = s.height ∧
      ∀ row ∈ s.rows, IsRow row ∧ Line.header? row.toList = none := by
  cases s with
  | prose text =>
    obtain ⟨rows, -, rfl, hrows⟩ := h
    have hisRow : ∀ row ∈ rows, IsRow row := fun row hrow => (hrows row hrow).1
    rw [rows_prose hisRow]
    exact ⟨rfl, (breaks_ofRows hisRow).symm, fun row hrow => ⟨hisRow row hrow, (hrows row hrow).2.1⟩⟩
  | fence f =>
    obtain ⟨hlabel, hlines⟩ := h
    refine ⟨?_, by simp [Segment.rows, height], fun row hrow => ?_⟩
    · have hbody : concat (f.lines.map fun line => line.render ++ "\n") = ofRows (f.lines.map FenceLine.render) := by
        rw [ofRows, List.map_map]
        rfl
      rw [Segment.render, Fence.render, Segment.rows, ofRows_cons, ofRows_append, hbody, String.append_assoc]
      rfl
    · rcases List.mem_cons.mp hrow with rfl | hrow
      · refine ⟨isRow_fenceText hlabel, ?_⟩
        rw [fenceText_toList]
        exact Line.not_header (by decide) _
      · rcases List.mem_append.mp hrow with hrow | hrow
        · obtain ⟨l, hl, rfl⟩ := List.mem_map.mp hrow
          exact ⟨(hlines l hl).isRow, (hlines l hl).within.1⟩
        · obtain rfl := List.mem_singleton.mp hrow
          exact ⟨isRow_of_blanks (List.forall_iff_forall_mem.mp (by decide)), rfl⟩

theorem height_reread (s : Segment) : s.reread.height = s.height := by
  cases s <;> simp [reread, height]

theorem fences_closed (n : Nat) (segments : List Segment) :
    ∀ f, .fence f ∈ fromLine n (segments.map reread) → f.closed = true := by
  induction segments generalizing n with
  | nil => simp [fromLine]
  | cons s segments ih =>
    intro f hf
    rcases List.mem_cons.mp hf with hf | hf
    · cases s with
      | prose text => cases hf
      | fence f' =>
        cases hf
        rfl
    · exact ih _ f hf

end Segment

namespace Block

variable {b : Block}

theorem header_toList (b : Block) :
    b.header.toList = '#' :: ' ' :: Line.headed b.name.toList (b.qualifier.map String.toList) := by
  cases hq : b.qualifier <;> simp [Block.header, Block.renderHeader, Line.headed, Line.starred, hq]

/-- Every header is read as some header. -/
theorem Legible.header?_header (h : b.Legible) :
    ∃ name qualifier, Line.header? b.header.toList = some (name, qualifier) := by
  obtain ⟨hne, htidy⟩ := isTidy_iff.mp h.name
  obtain ⟨_, _, _, -, hheader⟩ := Line.header?_headed htidy hne (b.qualifier.map String.toList)
  exact ⟨_, _, by rw [header_toList, hheader]⟩

theorem Legible.isRow_header (h : b.Legible) : IsRow b.header := by
  have hname := (isTidy_iff.mp h.name).2
  refine isRow_of_blanks fun c hc hb => ?_
  rw [header_toList, Line.headed] at hc
  simp only [List.mem_cons, List.mem_append] at hc
  rcases hc with rfl | rfl | hc | hc
  · cases hb
  · rfl
  · exact eq_space_of_mem_collapse hb (hname ▸ hc)
  · cases hq : b.qualifier with
    | none => simp [hq] at hc
    | some q =>
      have htidy := collapse_eq_iff.mp (h.qualifier q hq)
      simp only [hq, Option.map_some, Option.getD_some, Line.starred, List.mem_cons, List.mem_append,
        List.not_mem_nil, or_false] at hc
      rcases hc with rfl | rfl | rfl | hc | rfl | rfl
      · rfl
      · cases hb
      · cases hb
      · exact eq_space_of_mem_collapse hb (htidy ▸ hc)
      · cases hb
      · cases hb

theorem Legible.rows (h : b.Legible) :
    b.render = ofRows b.rows ∧ b.rows.length = b.height ∧ ∀ row ∈ b.rows, IsRow row := by
  refine ⟨?_, ?_, fun row hrow => ?_⟩
  · rw [Block.rows, ofRows_cons, ofRows_flatMap, Block.render, Block.header]
    congr 2
    exact List.map_congr_left fun s hs => (h.segments s hs).rows.1
  · rw [Block.rows, Block.height, List.length_cons, List.length_flatMap, Nat.add_comm]
    congr 2
    exact List.map_congr_left fun s hs => (h.segments s hs).rows.2.1
  · rcases List.mem_cons.mp hrow with rfl | hrow
    · exact h.isRow_header
    · obtain ⟨s, hs, hrow⟩ := List.mem_flatMap.mp hrow
      exact ((h.segments s hs).rows.2.2 row hrow).1

theorem height_reread (b : Block) : b.reread.height = b.height := by
  rw [Block.height, Block.height, Block.reread, List.map_map]
  congr 2
  exact List.map_congr_left fun s _ => s.height_reread

end Block

/-! ## Reading the rows -/

namespace Document

open SourceLine

theorem opensFence_head {s : Segment} (h : s.Legible) (hfence : s.isFence = true) (n : Nat) (more : List String) :
    ∀ m ∈ (numbered n (s.rows ++ more)).head?, m.opensFence = true := by
  cases s with
  | prose text => cases hfence
  | fence f =>
    obtain ⟨read, hread⟩ := fenceOpening?_fenceText h.1
    simp [Segment.rows, opensFence, hread]

theorem segmentsOf_rows {segments : List Segment} (h : ∀ s ∈ segments, s.Legible)
    (hapart : segments.IsChain fun s t => s.isFence = true ∨ t.isFence = true) (n : Nat) :
    segmentsOf (numbered n (segments.flatMap Segment.rows)) = Segment.fromLine n (segments.map Segment.reread) := by
  induction segments generalizing n with
  | nil => rw [List.flatMap_nil, numbered_nil, segmentsOf]; rfl
  | cons s segments ih =>
    have hs := h s List.mem_cons_self
    have hheight := hs.rows.2.1
    have ih := ih (fun t ht => h t (List.mem_cons_of_mem _ ht)) (List.isChain_of_isChain_cons hapart) (n + s.height)
    rw [List.flatMap_cons, numbered_append, List.map_cons, Segment.fromLine, Segment.height_reread, ← ih, hheight]
    cases s with
    | prose text =>
      obtain ⟨rows, hne, rfl, hrows⟩ := hs
      have hisRow : ∀ row ∈ rows, IsRow row := fun row hrow => (hrows row hrow).1
      rw [Segment.rows_prose hisRow]
      refine (segmentsOf_prose ?_ ?_ ?_).trans ?_
      · intro hnil
        refine hne (List.length_eq_zero_iff.mp ?_)
        rw [← length_numbered n, hnil]
        rfl
      · intro m hm
        simp [opensFence, (hrows _ (mem_numbered hm)).2.2]
      -- Prose ends where the next segment opens a fence, as no two segments of prose are neighbours.
      · cases segments with
        | nil => simp
        | cons t segments =>
          have ht : t.isFence = true := (List.isChain_cons_cons.mp hapart).1.resolve_left (by simp [Segment.isFence])
          rw [List.flatMap_cons]
          exact opensFence_head (h t (by simp)) ht _ _
      · rw [prose_numbered]
        rfl
    | fence f =>
      obtain ⟨read, hread⟩ := fenceOpening?_fenceText hs.1
      have hlines : (numbered (n + 1) (f.lines.map FenceLine.render)).map fenceLine =
          ((f.lines.map FenceLine.reread).zipIdx (n + 1)).map fun p => p.1.onLine p.2 := by
        rw [numbered, List.map_map, List.zipIdx_map, List.zipIdx_map, List.map_map, List.map_map]
        exact List.map_congr_left fun p _ => fenceLine_render p.2 p.1
      have hwithin : ∀ m ∈ numbered (n + 1) (f.lines.map FenceLine.render), m.closesFence = false := by
        intro m hm
        obtain ⟨l, hl, hrow⟩ := List.mem_map.mp (mem_numbered hm)
        rw [closesFence, ← hrow]
        exact (hs.2 l hl).within.2
      have hclose : closesFence ⟨n + 1 + (f.lines.map FenceLine.render).length, ":::"⟩ = true := by
        simp [closesFence, Line.isFenceClosing, Chars.behind?]
      simp only [Segment.rows, numbered_cons, numbered_append, numbered_nil, List.cons_append, List.append_assoc,
        List.nil_append]
      refine (segmentsOf_fence (l := ⟨n, fenceText f.label⟩) hread hwithin hclose).trans ?_
      rw [hlines, Segment.reread, hread]
      rfl

theorem blockOf_rows {b : Block} (h : b.Legible) {name : List Char} {qualifier : Option (List Char)}
    (hheader : Line.header? b.header.toList = some (name, qualifier)) (stop n : Nat) :
    blockOf n name qualifier (numbered (n + 1) (b.segments.flatMap Segment.rows)) stop = b.reread.onLine n := by
  have hopen : ((b.reread.onLine n).fences.filter fun fence => !fence.closed).map (unclosedError stop) = [] := by
    rw [List.map_eq_nil_iff, List.filter_eq_nil_iff]
    intro f hf
    obtain ⟨s, hs, hsf⟩ := List.mem_filterMap.mp hf
    cases s with
    | prose text => cases hsf
    | fence f' =>
      cases hsf
      simp [Segment.fences_closed _ _ f hs]
  simp only [blockOf, segmentsOf_rows h.segments h.apart, Block.reread, hheader, Block.onLine, Block.fences] at hopen ⊢
  rw [hopen, List.append_nil]
  rfl

theorem isHeader_head {blocks : List Block} (h : ∀ b ∈ blocks, b.Legible) (n : Nat) :
    ∀ m ∈ (numbered n (blocks.flatMap Block.rows)).head?, m.isHeader = true := by
  cases blocks with
  | nil => simp
  | cons b blocks =>
    obtain ⟨name, qualifier, hheader⟩ := (h b List.mem_cons_self).header?_header
    simp [Block.rows, isHeader, SourceLine.header?, hheader]

theorem blocksOf_rows {blocks : List Block} (h : ∀ b ∈ blocks, b.Legible) (stop n : Nat) :
    blocksOf stop (numbered n (blocks.flatMap Block.rows)) = Block.fromLine n (blocks.map Block.reread) := by
  induction blocks generalizing n with
  | nil => rw [List.flatMap_nil, numbered_nil, blocksOf]; rfl
  | cons b blocks ih =>
    have hb := h b List.mem_cons_self
    have ih := ih (fun c hc => h c (List.mem_cons_of_mem _ hc)) (n + b.height)
    obtain ⟨name, qualifier, hheader⟩ := hb.header?_header
    rw [List.flatMap_cons, numbered_append, hb.rows.2.1, List.map_cons, Block.fromLine, Block.height_reread, ← ih,
      Block.rows, numbered_cons, List.cons_append]
    have hl : SourceLine.header? ⟨n, b.header⟩ = some (name, qualifier) := hheader
    have hbody : ∀ m ∈ numbered (n + 1) (b.segments.flatMap Segment.rows), m.isHeader = false := by
      intro m hm
      obtain ⟨s, hs, hrow⟩ := List.mem_flatMap.mp (mem_numbered hm)
      simp [isHeader, SourceLine.header?, ((hb.segments s hs).rows.2.2 _ hrow).2]
    rw [blocksOf_block stop hl hbody (isHeader_head (fun c hc => h c (List.mem_cons_of_mem _ hc)) _),
      blockOf_rows hb hheader]

/-- A legible document, rendered and read again, has what each of its own lines says. -/
theorem parse_render {d : Document} (h : d.Legible) : parse d.render = d.reread.renumbered := by
  obtain ⟨rows, hpreamble, hrows⟩ := h.preamble
  have hisRow : ∀ row ∈ rows, IsRow row := fun row hrow => (hrows row hrow).1
  have htext : d.render = ofRows (rows ++ d.blocks.flatMap Block.rows) := by
    rw [Document.render, hpreamble, ofRows_append, ofRows_flatMap]
    congr 2
    exact List.map_congr_left fun b hb => (h.blocks b hb).rows.1
  have hall : ∀ row ∈ rows ++ d.blocks.flatMap Block.rows, IsRow row := by
    intro row hrow
    rcases List.mem_append.mp hrow with hrow | hrow
    · exact hisRow row hrow
    · obtain ⟨b, hb, hrow⟩ := List.mem_flatMap.mp hrow
      exact (h.blocks b hb).rows.2.2 row hrow
  have hplain : ∀ m ∈ numbered 1 rows, m.isHeader = false := fun m hm => by
    simp [isHeader, SourceLine.header?, (hrows _ (mem_numbered hm)).2]
  obtain ⟨htake, hdrop⟩ := cut_of_head isHeader hplain (isHeader_head h.blocks (1 + rows.length))
  rw [parse, htext, ofText_ofRows hall, numbered_append]
  simp only [htake, hdrop, prose_numbered, blocksOf_rows h.blocks]
  rw [Document.renumbered, Document.reread, hpreamble, breaks_ofRows hisRow, Nat.add_comm]

end Document

end Morphology
