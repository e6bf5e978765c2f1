import Mathlib.Data.List.TakeWhile
import Morphology.Proofs.Document.Header
import Morphology.Proofs.Document.Places
import Morphology.Proofs.Document.Rows

/-! Documents built one line at a time. The builder holds the block, the prose and the fence that are being read, and
hands each over when a line ends it. Reading line by line builds what cutting the text into blocks gives. -/

namespace Morphology

/-- What a line is, before its statement is read. -/
inductive LineKind where
  | header (name : List Char) (qualifier : Option (List Char))
  | fenceOpening (label : Option (List Char))
  | fenceClosing
  | text
  deriving DecidableEq, Repr

def SourceLine.kind (l : SourceLine) : LineKind :=
  match l.header? with
  | some (name, qualifier) => .header name qualifier
  | none =>
    match Line.fenceOpening? l.text.toList with
    | some label => .fenceOpening label
    | none => if l.closesFence then .fenceClosing else .text

/-- A document in the making: what is done of it, and what is still being read. -/
structure Builder where
  document : Document := .empty
  block : Option Block := none
  prose : String := ""
  fence : Option Fence := none

namespace Builder

open Document

def addSegment (b : Builder) (s : Segment) : Builder :=
  { b with block := b.block.map fun block => { block with segments := block.segments ++ [s] } }

def addError (b : Builder) (e : ParseError) : Builder :=
  { b with block := b.block.map fun block => { block with errors := block.errors ++ [e] } }

/-- The prose that was read goes to the block, or to the preamble before the first one. -/
def flushProse (b : Builder) : Builder :=
  if b.prose = "" then b
  else
    match b.block with
    | some _ => { b.addSegment (.prose b.prose) with prose := "" }
    | none => { b with document := { b.document with preamble := b.document.preamble ++ b.prose }, prose := "" }

/-- A fence that is still open is kept, but reported. -/
def leaveFence (b : Builder) (stop : Nat) : Builder :=
  match b.fence with
  | some fence => { (b.addError (unclosedError stop fence)).addSegment (.fence fence) with fence := none }
  | none => b

def leaveBlock (b : Builder) : Builder :=
  match b.block with
  | some block => { b with document := { b.document with blocks := b.document.blocks ++ [block] }, block := none }
  | none => b

/-- Ends what is being read, before line `stop`. -/
def finishBlock (b : Builder) (stop : Nat) : Builder := (b.leaveFence stop).flushProse.leaveBlock

/-- A line that does not change what is being read. -/
def pushText (b : Builder) (l : SourceLine) : Builder :=
  match b.fence with
  | none => { b with prose := b.prose ++ (l.text ++ "\n") }
  | some fence =>
    if Text.isBlank l.text then { b with fence := some { fence with lines := fence.lines ++ [.blank] } }
    else
      match Statement.parse l.text l.number with
      | .ok s => { b with fence := some { fence with lines := fence.lines ++ [.statement l.number s] } }
      | .error e =>
        { b.addError e with fence := some { fence with lines := fence.lines ++ [.invalid l.number l.text] } }

def pushLine (b : Builder) (l : SourceLine) : Builder :=
  match l.kind, b.fence with
  | .header name qualifier, _ =>
    { b.finishBlock l.number with
      block := some ⟨String.ofList name, qualifier.map String.ofList, l.number, [], []⟩ }
  | .fenceOpening label, none =>
    if b.block.isSome then { b.flushProse with fence := some ⟨label.map String.ofList, l.number, [], false⟩ }
    else b.pushText l
  | .fenceClosing, some fence => { b.addSegment (.fence { fence with closed := true }) with fence := none }
  | _, _ => b.pushText l

end Builder

/-- The document of a text, one line after the other. -/
def Document.build (text : String) : Document :=
  let ls := SourceLine.ofText text
  ((ls.foldl Builder.pushLine {}).finishBlock (ls.length + 1)).document

open SourceLine Document

variable {l : SourceLine} {ls : List SourceLine}

/-! ### Kinds of lines -/

theorem SourceLine.kind_header {name : List Char} {qualifier : Option (List Char)}
    (h : l.header? = some (name, qualifier)) : l.kind = .header name qualifier := by
  simp only [kind, h]

theorem SourceLine.header?_eq_none (h : l.isHeader = false) : l.header? = none := by
  simpa [isHeader] using h

theorem SourceLine.kind_opening {label : Option (List Char)} (h : l.isHeader = false)
    (hlabel : Line.fenceOpening? l.text.toList = some label) : l.kind = .fenceOpening label := by
  simp only [kind, header?_eq_none h, hlabel]

/-- A line that closes a fence opens none, and is no header. -/
theorem SourceLine.kind_closing (h : l.closesFence = true) : l.kind = .fenceClosing := by
  have hclosing : Line.isFenceClosing l.text.toList = true := h
  unfold Line.isFenceClosing at hclosing
  cases hrest : Chars.behind? [':', ':', ':'] l.text.toList with
  | none => simp [hrest] at hclosing
  | some rest =>
    rw [hrest] at hclosing
    have hpad : rest.dropWhile Line.isPad = [] := List.dropWhile_eq_nil_iff.mpr (List.all_eq_true.mp hclosing)
    have hopening : Line.fenceOpening? l.text.toList = none := by
      unfold Line.fenceOpening?
      rw [hrest]
      simp only [hpad]
      rfl
    have hheader : l.header? = none := by
      rw [SourceLine.header?, Chars.behind?_eq_some hrest]
      exact Line.not_header (by decide) _
    simp only [kind, hheader, hopening, h, if_true]

theorem SourceLine.kind_text (hheader : l.isHeader = false) (hopens : l.opensFence = false)
    (hcloses : l.closesFence = false) : l.kind = .text := by
  have hopening : Line.fenceOpening? l.text.toList = none := by simpa [opensFence] using hopens
  simp [kind, header?_eq_none hheader, hopening, hcloses]

namespace Builder

variable {d : Document} {block : Block} {p : String} {f : Fence} {stop : Nat}

/-! ### Within a fence -/

theorem pushLine_inside (hheader : l.isHeader = false) (hcloses : l.closesFence = false) :
    pushLine ⟨d, some block, "", some f⟩ l =
      ⟨d, some { block with errors := block.errors ++ (lineError? l.fenceLine).toList }, "",
        some { f with lines := f.lines ++ [l.fenceLine] }⟩ := by
  have hpush : pushLine ⟨d, some block, "", some f⟩ l = pushText ⟨d, some block, "", some f⟩ l := by
    cases hopening : Line.fenceOpening? l.text.toList with
    | none => simp only [pushLine, kind_text hheader (by simp [opensFence, hopening]) hcloses]
    | some label => simp only [pushLine, kind_opening hheader hopening]
  rw [hpush]
  unfold pushText fenceLine
  by_cases hblank : Text.isBlank l.text = true
  · simp [hblank, lineError?]
  · cases hparse : Statement.parse l.text l.number with
    | ok s => simp [hblank, lineError?]
    | error e => simp [hblank, hparse, lineError?, addError]

theorem foldl_inside (h : ∀ m ∈ ls, m.isHeader = false ∧ m.closesFence = false) :
    ls.foldl pushLine ⟨d, some block, "", some f⟩ =
      ⟨d, some { block with errors := block.errors ++ (ls.map fenceLine).filterMap lineError? }, "",
        some { f with lines := f.lines ++ ls.map fenceLine }⟩ := by
  induction ls generalizing block f with
  | nil => simp
  | cons m ls ih =>
    obtain ⟨hm, hls⟩ := List.forall_mem_cons.mp h
    rw [List.foldl_cons, pushLine_inside hm.1 hm.2, ih hls]
    cases herror : lineError? m.fenceLine with
    | none => simp [herror]
    | some e => simp [herror]

/-! ### Outside of fences -/

/-- Before the first block a fence is prose as well. -/
theorem pushLine_outside {block : Option Block} (hheader : l.isHeader = false)
    (h : block = none ∨ l.opensFence = false) :
    pushLine ⟨d, block, p, none⟩ l = ⟨d, block, p ++ (l.text ++ "\n"), none⟩ := by
  have hpush : pushLine ⟨d, block, p, none⟩ l = pushText ⟨d, block, p, none⟩ l := by
    by_cases hcloses : l.closesFence = true
    · simp only [pushLine, kind_closing hcloses]
    · cases hopening : Line.fenceOpening? l.text.toList with
      | none => simp only [pushLine, kind_text hheader (by simp [opensFence, hopening]) (by simpa using hcloses)]
      | some label =>
        have hblock : block = none := h.resolve_right (by simp [opensFence, hopening])
        simp [pushLine, kind_opening hheader hopening, hblock]
  rw [hpush]
  rfl

theorem foldl_outside {block : Option Block}
    (h : ∀ m ∈ ls, m.isHeader = false ∧ (block = none ∨ m.opensFence = false)) :
    ls.foldl pushLine ⟨d, block, p, none⟩ = ⟨d, block, p ++ SourceLine.prose ls, none⟩ := by
  induction ls generalizing p with
  | nil => simp [SourceLine.prose, Text.concat]
  | cons m ls ih =>
    obtain ⟨hm, hls⟩ := List.forall_mem_cons.mp h
    rw [List.foldl_cons, pushLine_outside hm.1 hm.2, ih hls]
    simp [SourceLine.prose, Text.concat, String.append_assoc]

/-- Prose that is read is not empty, as each of its lines ends in a break. -/
theorem prose_ne_empty (l : SourceLine) (ls : List SourceLine) : SourceLine.prose (l :: ls) ≠ "" := by
  intro h
  have hlist := congrArg String.toList h
  simp [SourceLine.prose, Text.concat] at hlist

/-- The block with the prose that was read behind its other segments. -/
def withProse (block : Block) (p : String) : Block :=
  if p = "" then block else { block with segments := block.segments ++ [.prose p] }

@[simp] theorem withProse_empty (block : Block) : withProse block "" = block := rfl

theorem withProse_prose (block : Block) (l : SourceLine) (ls : List SourceLine) :
    withProse block (SourceLine.prose (l :: ls)) =
      { block with segments := block.segments ++ [.prose (SourceLine.prose (l :: ls))] } :=
  if_neg (prose_ne_empty l ls)

theorem flushProse_block : flushProse ⟨d, some block, p, none⟩ = ⟨d, some (withProse block p), "", none⟩ := by
  by_cases hp : p = ""
  · simp [flushProse, withProse, hp]
  · simp [flushProse, withProse, hp, addSegment]

theorem flushProse_preamble :
    flushProse ⟨d, none, p, none⟩ = ⟨{ d with preamble := d.preamble ++ p }, none, "", none⟩ := by
  by_cases hp : p = ""
  · simp [flushProse, hp]
  · simp [flushProse, hp]

theorem finishBlock_prose : finishBlock ⟨d, some block, p, none⟩ stop =
    ⟨{ d with blocks := d.blocks ++ [withProse block p] }, none, "", none⟩ := by
  simp only [finishBlock, leaveFence, flushProse_block, leaveBlock]

theorem finishBlock_preamble : finishBlock ⟨d, none, p, none⟩ stop =
    ⟨{ d with preamble := d.preamble ++ p }, none, "", none⟩ := by
  simp only [finishBlock, leaveFence, flushProse_preamble, leaveBlock]

theorem pushLine_opening {label : Option (List Char)} (hheader : l.isHeader = false)
    (hlabel : Line.fenceOpening? l.text.toList = some label) :
    pushLine ⟨d, some block, p, none⟩ l =
      ⟨d, some (withProse block p), "", some ⟨label.map String.ofList, l.number, [], false⟩⟩ := by
  simp [pushLine, kind_opening hheader hlabel, flushProse_block]

/-- What ends prose flushes it, so that it may as well be flushed before. -/
theorem finishBlock_flushed (h : ∀ m ∈ ls.head?, m.isHeader = false ∧ m.opensFence = true) :
    (ls.foldl pushLine ⟨d, some block, p, none⟩).finishBlock stop =
      (ls.foldl pushLine ⟨d, some (withProse block p), "", none⟩).finishBlock stop := by
  cases ls with
  | nil => simp [finishBlock_prose]
  | cons m ls =>
    obtain ⟨hheader, hopens⟩ := h m rfl
    obtain ⟨label, hlabel⟩ := Option.isSome_iff_exists.mp hopens
    simp [pushLine_opening hheader hlabel]

/-! ### Within a block -/

/-- The block with more segments, and with their errors. -/
def grown (block : Block) (stop : Nat) (segments : List Segment) : Block :=
  { block with
    segments := block.segments ++ segments
    errors := block.errors ++ errorsOf stop (segments.filterMap Segment.fence?) }

theorem grown_nil (block : Block) (stop : Nat) : grown block stop [] = block := by
  simp [grown, errorsOf]

theorem grown_prose (block : Block) (stop : Nat) (text : String) (segments : List Segment) :
    grown block stop (.prose text :: segments) =
      grown { block with segments := block.segments ++ [.prose text] } stop segments := by
  simp [grown, Segment.fence?, List.filterMap_cons]

theorem grown_fence (h : f.closed = true) (block : Block) (stop : Nat) (segments : List Segment) :
    grown block stop (.fence f :: segments) =
      grown { block with
        segments := block.segments ++ [.fence f]
        errors := block.errors ++ f.lines.filterMap lineError? } stop segments := by
  simp [grown, Segment.fence?, errorsOf, h]

theorem pushLine_closing (h : l.closesFence = true) :
    pushLine ⟨d, some block, "", some f⟩ l =
      ⟨d, some { block with segments := block.segments ++ [.fence { f with closed := true }] }, "", none⟩ := by
  simp [pushLine, kind_closing h, addSegment]

theorem finishBlock_unclosed (h : f.closed = false) :
    finishBlock ⟨d, some { block with errors := block.errors ++ f.lines.filterMap lineError? }, "", some f⟩ stop =
      ⟨{ d with blocks := d.blocks ++ [grown block stop [.fence f]] }, none, "", none⟩ := by
  simp [finishBlock, leaveFence, addError, addSegment, flushProse, leaveBlock, grown, Segment.fence?, errorsOf, h]

theorem foldl_fence {label : Option (List Char)} (hheader : l.isHeader = false)
    (hlabel : Line.fenceOpening? l.text.toList = some label)
    (h : ∀ m ∈ ls, m.isHeader = false ∧ m.closesFence = false) :
    (l :: ls).foldl pushLine ⟨d, some block, "", none⟩ =
      ⟨d, some { block with errors := block.errors ++ (ls.map fenceLine).filterMap lineError? }, "",
        some ⟨label.map String.ofList, l.number, ls.map fenceLine, false⟩⟩ := by
  rw [List.foldl_cons, pushLine_opening hheader hlabel, foldl_inside h]
  simp

/-- Line by line, the lines of a block give the segments that they are cut into. -/
theorem finishBlock_body (block : Block) (h : ∀ m ∈ ls, m.isHeader = false) :
    (ls.foldl pushLine ⟨d, some block, "", none⟩).finishBlock stop =
      ⟨{ d with blocks := d.blocks ++ [grown block stop (segmentsOf ls)] }, none, "", none⟩ := by
  fun_induction segmentsOf ls generalizing block with
  | case1 => rw [List.foldl_nil, finishBlock_prose, withProse_empty, grown_nil]
  | case2 l rest label hlabel inner behind ih =>
    obtain ⟨hl, hrest⟩ := List.forall_mem_cons.mp h
    have hinner : ∀ m ∈ inner, m.isHeader = false ∧ m.closesFence = false := fun m hm =>
      ⟨hrest m ((List.takeWhile_sublist _).subset hm), of_mem_takeWhile hm⟩
    have hcut : l :: rest = (l :: inner) ++ behind := cons_cut _ l rest
    rw [hcut, List.foldl_append, foldl_fence hl hlabel hinner]
    -- the fence is still open where the block ends, or the next line closes it
    cases hbehind : behind with
    | nil =>
      refine (finishBlock_unclosed rfl).trans ?_
      simp [segmentsOf]
    | cons c more =>
      have hcloses : c.closesFence = true := head_dropWhile closesFence rest c (by simp [behind, hbehind])
      have hmore : ∀ m ∈ more, m.isHeader = false := fun m hm => h m (by simp [hcut, hbehind, hm])
      rw [hbehind] at ih
      rw [List.foldl_cons, pushLine_closing hcloses, grown_fence (by simp)]
      exact ih _ hmore
  | case3 l rest hnone more ih =>
    obtain ⟨hl, hrest⟩ := List.forall_mem_cons.mp h
    have hprose : ∀ m ∈ l :: more, m.isHeader = false ∧ (some block = none ∨ m.opensFence = false) := by
      refine List.forall_mem_cons.mpr ⟨⟨hl, .inr (by simp [opensFence, hnone])⟩, fun m hm => ⟨?_, .inr ?_⟩⟩
      · exact hrest m ((List.takeWhile_sublist _).subset hm)
      · exact of_mem_takeWhile hm
    have hbehind : ∀ m ∈ rest.dropWhile fun m => !m.opensFence, m.isHeader = false := fun m hm =>
      hrest m ((List.dropWhile_sublist _).subset hm)
    have hcut : l :: rest = (l :: more) ++ rest.dropWhile fun m => !m.opensFence := cons_cut _ l rest
    -- the prose is still held when the next fence opens, which flushes it
    rw [hcut, List.foldl_append, foldl_outside hprose, String.empty_append, finishBlock_flushed, withProse_prose,
      grown_prose]
    · exact ih _ hbehind
    · intro m hm
      exact ⟨hbehind m (List.mem_of_mem_head? hm), head_dropWhile opensFence rest m hm⟩

/-! ### The whole text -/

theorem finishBlock_idle : finishBlock ⟨d, none, "", none⟩ stop = ⟨d, none, "", none⟩ := rfl

theorem pushLine_header {name : List Char} {qualifier : Option (List Char)} (h : l.header? = some (name, qualifier))
    {b : Builder} (hb : b.finishBlock l.number = ⟨d, none, "", none⟩) :
    b.pushLine l = ⟨d, some ⟨String.ofList name, qualifier.map String.ofList, l.number, [], []⟩, "", none⟩ := by
  simp only [pushLine, kind_header h, hb]

/-- A header ends what is read before it, so that this may as well be ended before. -/
theorem finishBlock_ended {b : Builder} (h : ∀ m ∈ ls.head?, m.isHeader = true)
    (hb : b.finishBlock ((ls.head?.map (·.number)).getD stop) = ⟨d, none, "", none⟩) :
    (ls.foldl pushLine b).finishBlock stop = (ls.foldl pushLine ⟨d, none, "", none⟩).finishBlock stop := by
  cases ls with
  | nil => exact hb
  | cons m ls =>
    obtain ⟨⟨name, qualifier⟩, hheader⟩ := Option.isSome_iff_exists.mp (h m rfl)
    rw [List.foldl_cons, List.foldl_cons, pushLine_header hheader hb, pushLine_header hheader finishBlock_idle]

theorem grown_header (n : Nat) (name : List Char) (qualifier : Option (List Char)) (body : List SourceLine) :
    grown ⟨String.ofList name, qualifier.map String.ofList, n, [], []⟩ stop (segmentsOf body) =
      blockOf n name qualifier body stop := by
  simp [grown, blockOf_eq, fencesOf]

/-- Line by line, lines that begin with a header give the blocks that they are cut into. -/
theorem finishBlock_blocks (d : Document) (stop : Nat) (ls : List SourceLine) (h : ∀ m ∈ ls.head?, m.isHeader = true) :
    (ls.foldl pushLine ⟨d, none, "", none⟩).finishBlock stop =
      ⟨{ d with blocks := d.blocks ++ blocksOf stop ls }, none, "", none⟩ := by
  fun_induction blocksOf stop ls generalizing d with
  | case1 => simp [finishBlock_idle]
  | case2 l rest body next name qualifier hheader ih =>
    have hbody : ∀ m ∈ body, m.isHeader = false := fun m hm => of_mem_takeWhile hm
    have hnext : ∀ m ∈ next.head?, m.isHeader = true := head_dropWhile isHeader rest
    have hcut : l :: rest = (l :: body) ++ next := cons_cut _ l rest
    rw [hcut, List.foldl_append, List.foldl_cons, pushLine_header hheader finishBlock_idle,
      finishBlock_ended hnext (finishBlock_body _ hbody), ih _ hnext, grown_header]
    simp
  | case3 l rest next hnone ih =>
    have hheader := h l rfl
    simp [isHeader, hnone] at hheader

end Builder

/-- Reading line by line builds the document that the text is cut into. -/
theorem Document.build_eq_parse (text : String) : build text = parse text := by
  unfold build parse
  generalize ofText text = ls
  have hpreamble : ∀ m ∈ ls.takeWhile fun m => !m.isHeader,
      m.isHeader = false ∧ ((none : Option Block) = none ∨ m.opensFence = false) := fun m hm =>
    ⟨of_mem_takeWhile hm, .inl rfl⟩
  have hblocks : ∀ m ∈ (ls.dropWhile fun m => !m.isHeader).head?, m.isHeader = true := head_dropWhile isHeader ls
  have hread : ls.foldl Builder.pushLine {} = (ls.dropWhile fun m => !m.isHeader).foldl Builder.pushLine
      ⟨.empty, none, "" ++ prose (ls.takeWhile fun m => !m.isHeader), none⟩ := by
    rw [← Builder.foldl_outside hpreamble, ← List.foldl_append, List.takeWhile_append_dropWhile]
  dsimp only
  rw [hread, Builder.finishBlock_ended hblocks Builder.finishBlock_preamble, Builder.finishBlock_blocks _ _ _ hblocks]
  simp [Document.empty]

end Morphology
