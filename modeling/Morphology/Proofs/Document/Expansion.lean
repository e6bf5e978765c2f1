import Mathlib.Data.List.Forall2
import Morphology.Proofs.Document.Places
import Morphology.Proofs.Statement.Faults

/-! A document accounts for every line of its text. Laid out again line by line, its preamble and its blocks give the
lines that were read, in their order, and what is reported are the lines within fences that state nothing, and the
fence that nothing closes. -/

namespace Morphology

open SourceLine

/-- The lines that make up a text. What stands behind the last break is one more line only if there is any. -/
def Text.rows (s : String) : List String :=
  let parts := Chars.pieces (· == '\n') s.toList
  (if parts.getLast? = some [] then parts.dropLast else parts).map String.ofList

/-- What a document keeps of one line. -/
inductive Kept where
  | preamble (text : String)
  | header (line : Nat) (name : String) (qualifier : Option String)
  | prose (text : String)
  | opening (line : Nat) (label : Option String)
  | inside (entry : FenceLine)
  | closing

def Segment.expand : Segment → List Kept
  | prose text => (Text.rows text).map .prose
  | fence f => .opening f.line f.label :: (f.lines.map .inside ++ if f.closed then [.closing] else [])

def Block.expand (b : Block) : List Kept := .header b.line b.name b.qualifier :: b.segments.flatMap Segment.expand

def Document.expand (d : Document) : List Kept :=
  (Text.rows d.preamble).map .preamble ++ d.blocks.flatMap Block.expand

/-- What is read from a line within a fence. -/
structure FenceLine.ReadFrom (entry : FenceLine) (l : SourceLine) : Prop where
  blank : entry = .blank ↔ Text.isBlank l.text = true
  statement : ∀ n s, entry = .statement n s ↔ n = l.number ∧ Statement.parse l.text l.number = .ok s
  invalid : ∀ n raw, entry = .invalid n raw ↔
    n = l.number ∧ raw = l.text ∧ Text.isBlank l.text = false ∧ ∀ s, Statement.parse l.text l.number ≠ .ok s

/-- A line is kept as what it is. Which lines can stand where depends on what is open there: only a header ends a
fence that no line closes, and a fence is opened by a line of its block that stands outside every fence. -/
def Kept.Of : Kept → SourceLine → Prop
  | preamble text, l => l.isHeader = false ∧ text = l.text
  | header n name qualifier, l => n = l.number ∧ l.header? = some (name.toList, qualifier.map String.toList)
  | prose text, l => l.isHeader = false ∧ l.opensFence = false ∧ text = l.text
  | opening n label, l => l.isHeader = false ∧ n = l.number ∧
      Line.fenceOpening? l.text.toList = some (label.map String.toList)
  | inside entry, l => l.isHeader = false ∧ l.closesFence = false ∧ entry.ReadFrom l
  | closing, l => l.isHeader = false ∧ l.closesFence = true

def FenceLine.invalid? : FenceLine → Option (Nat × String)
  | invalid n raw => some (n, raw)
  | _ => none

namespace Block

/-- The lines of a block that state nothing. -/
def invalidEntries (b : Block) : List (Nat × String) :=
  b.fences.flatMap fun f => f.lines.filterMap FenceLine.invalid?

def openFence? (b : Block) : Option Fence := b.fences.getLast?.filter fun f => !f.closed

end Block

namespace ParseError

/-- The error of this line, which states nothing. -/
def Reports (e : ParseError) (entry : Nat × String) : Prop :=
  e.span.line = entry.1 ∧ e.raw = entry.2 ∧ Statement.parse entry.2 entry.1 = .error e

def ReportsOpen (e : ParseError) (f : Fence) : Prop :=
  e.span.line = f.line ∧ ∃ stop, e.fault = .unclosedFence f.line stop

end ParseError

namespace Document

/-- The lines are those of the text, one for one, and so are the errors those of the lines. -/
structure Accounts (d : Document) (ls : List SourceLine) : Prop where
  numbers : ls.map (·.number) = List.range' 1 ls.length
  lines : List.Forall₂ Kept.Of d.expand ls
  errors : ∀ b ∈ d.blocks, ∃ faults unclosed, b.errors = faults ++ unclosed ∧
    List.Forall₂ ParseError.Reports faults b.invalidEntries ∧
    List.Forall₂ ParseError.ReportsOpen unclosed b.openFence?.toList
  closed : ∀ b ∈ d.blocks, ∀ f ∈ b.fences.dropLast, f.closed = true

end Document

section Rows

open Text

theorem Text.pieces_ofRows {rows : List String} (h : ∀ row ∈ rows, '\n' ∉ row.toList) :
    Chars.pieces (· == '\n') (ofRows rows).toList = rows.map String.toList ++ [[]] := by
  induction rows with
  | nil => rfl
  | cons row rest ih =>
    have hrow : ∀ c ∈ row.toList, (c == '\n') = false := by
      intro c hc
      rw [beq_eq_false_iff_ne]
      rintro rfl
      exact h row List.mem_cons_self hc
    have ih := ih fun r hr => h r (List.mem_cons_of_mem _ hr)
    have htext : (ofRows (row :: rest)).toList = row.toList ++ '\n' :: (ofRows rest).toList := by simp
    rw [htext, Chars.pieces_append_cons hrow (by rfl), ih]
    rfl

theorem Text.rows_ofRows {rows : List String} (h : ∀ row ∈ rows, '\n' ∉ row.toList) :
    Text.rows (ofRows rows) = rows := by
  unfold Text.rows
  simp [pieces_ofRows h]

theorem rows_prose {ls : List SourceLine} (h : ∀ l ∈ ls, '\n' ∉ l.text.toList) :
    Text.rows (prose ls) = ls.map (·.text) := by
  have hprose : prose ls = ofRows (ls.map (·.text)) := by
    rw [ofRows, List.map_map]
    rfl
  rw [hprose]
  refine Text.rows_ofRows fun row hrow => ?_
  obtain ⟨l, hl, rfl⟩ := List.mem_map.mp hrow
  exact h l hl

theorem not_mem_ofText {text : String} : ∀ l ∈ ofText text, '\n' ∉ l.text.toList := by
  intro l hl
  rw [ofText_eq_numbered] at hl
  obtain ⟨line, hline, htext⟩ := List.mem_map.mp (mem_numbered hl)
  rw [← htext, String.toList_ofList]
  exact fun hmem => (Chars.mem_lines hline).2 ((Chars.dropReturn_infix line).subset hmem)

end Rows

theorem readFrom_fenceLine (l : SourceLine) : l.fenceLine.ReadFrom l := by
  unfold fenceLine
  by_cases hblank : Text.isBlank l.text = true
  · have hparse := Statement.parse_of_isBlank hblank l.number
    rw [if_pos hblank]
    exact ⟨by simp [hblank], by simp [hparse], by simp [hblank]⟩
  · rw [if_neg hblank]
    cases hparse : Statement.parse l.text l.number with
    | ok s => exact ⟨by simp [hblank], by simp [hparse, eq_comm], by simp [hparse]⟩
    | error e => exact ⟨by simp [hblank], by simp [hparse], by simp [hparse, hblank, eq_comm]⟩

theorem faults_of_fenceLines (ls : List SourceLine) :
    List.Forall₂ ParseError.Reports ((ls.map fenceLine).filterMap Document.lineError?)
      ((ls.map fenceLine).filterMap FenceLine.invalid?) := by
  induction ls with
  | nil => exact .nil
  | cons l ls ih =>
    have hl := readFrom_fenceLine l
    rw [List.map_cons, List.filterMap_cons, List.filterMap_cons]
    cases hentry : l.fenceLine with
    | blank => exact ih
    | statement n s => exact ih
    | invalid n raw =>
      obtain ⟨rfl, rfl, -, hnone⟩ := (hl.invalid n raw).mp hentry
      cases hparse : Statement.parse l.text l.number with
      | ok s => exact absurd hparse (hnone s)
      | error e =>
        obtain ⟨hline, hraw⟩ := Statement.error_of_parse hparse
        simp only [Document.lineError?, FenceLine.invalid?, hparse]
        exact .cons ⟨hline, hraw, hparse⟩ ih

namespace Document

open List

theorem keeps_map {f : SourceLine → Kept} {ls : List SourceLine} (h : ∀ l ∈ ls, (f l).Of l) :
    Forall₂ Kept.Of (ls.map f) ls :=
  forall₂_map_left_iff.mpr (forall₂_same.mpr h)

theorem keeps_rows {f : String → Kept} {ls : List SourceLine} (hrow : ∀ l ∈ ls, '\n' ∉ l.text.toList)
    (h : ∀ l ∈ ls, (f l.text).Of l) : Forall₂ Kept.Of ((Text.rows (prose ls)).map f) ls := by
  rw [rows_prose hrow, map_map]
  exact keeps_map h

/-- What stands behind an open fence begins with the line that closes it, if there is any. -/
theorem keeps_behind {behind : List SourceLine} (hhead : ∀ m ∈ behind.head?, m.closesFence = true)
    (hheader : ∀ m ∈ behind, m.isHeader = false) {kept : List Kept}
    (hkept : Forall₂ Kept.Of kept (behind.drop 1)) :
    Forall₂ Kept.Of ((if (!behind.isEmpty) then [.closing] else []) ++ kept) behind := by
  cases behind with
  | nil => exact hkept
  | cons c after => exact .cons ⟨hheader c mem_cons_self, hhead c rfl⟩ hkept

theorem keeps_segmentsOf {ls : List SourceLine} (h : ∀ l ∈ ls, '\n' ∉ l.text.toList ∧ l.isHeader = false) :
    Forall₂ Kept.Of ((segmentsOf ls).flatMap Segment.expand) ls := by
  fun_induction segmentsOf ls with
  | case1 => exact .nil
  | case2 l rest label hlabel inner behind ih =>
    have hrest : ∀ m ∈ rest, '\n' ∉ m.text.toList ∧ m.isHeader = false := fun m hm => h m (mem_cons_of_mem _ hm)
    have hbehind : ∀ m ∈ behind, '\n' ∉ m.text.toList ∧ m.isHeader = false := fun m hm =>
      hrest m ((dropWhile_sublist _).subset hm)
    have hopening : (Kept.opening l.number (label.map String.ofList)).Of l := by
      refine ⟨(h l mem_cons_self).2, rfl, ?_⟩
      simp [hlabel, Function.comp_def]
    have hinner : Forall₂ Kept.Of (inner.map fun m => .inside m.fenceLine) inner := by
      refine keeps_map fun m hm => ⟨(hrest m ((takeWhile_sublist _).subset hm)).2, ?_, readFrom_fenceLine m⟩
      simpa using mem_takeWhile_imp hm
    have hafter := keeps_behind (head_dropWhile closesFence rest) (fun m hm => (hbehind m hm).2)
      (ih fun m hm => hbehind m (mem_of_mem_drop hm))
    have hcut : inner ++ behind = rest := takeWhile_append_dropWhile
    rw [flatMap_cons, Segment.expand, map_map, cons_append, append_assoc, ← hcut]
    exact .cons hopening (rel_append hinner hafter)
  | case3 l rest hnone more ih =>
    have hmore : ∀ m ∈ l :: more, m ∈ l :: rest ∧ m.opensFence = false := by
      intro m hm
      rcases mem_cons.mp hm with rfl | hm
      · exact ⟨mem_cons_self, by simp [opensFence, hnone]⟩
      · exact ⟨mem_cons_of_mem _ ((takeWhile_sublist _).subset hm), by simpa using mem_takeWhile_imp hm⟩
    have hprose : Forall₂ Kept.Of ((Text.rows (prose (l :: more))).map .prose) (l :: more) :=
      keeps_rows (fun m hm => (h m (hmore m hm).1).1) fun m hm => ⟨(h m (hmore m hm).1).2, (hmore m hm).2, rfl⟩
    have hafter := ih fun m hm => h m (mem_cons_of_mem _ ((dropWhile_sublist _).subset hm))
    have hcut : l :: more ++ rest.dropWhile (fun m => !m.opensFence) = l :: rest :=
      congrArg (l :: ·) takeWhile_append_dropWhile
    rw [flatMap_cons, Segment.expand, ← hcut]
    exact rel_append hprose hafter

theorem keeps_blocksOf {stop : Nat} {ls : List SourceLine} (hrow : ∀ l ∈ ls, '\n' ∉ l.text.toList)
    (hhead : ∀ l ∈ ls.head?, l.isHeader = true) : Forall₂ Kept.Of ((blocksOf stop ls).flatMap Block.expand) ls := by
  fun_induction blocksOf stop ls with
  | case1 => exact .nil
  | case2 l rest body next name qualifier hheader ih =>
    have hrest : ∀ m ∈ rest, '\n' ∉ m.text.toList := fun m hm => hrow m (mem_cons_of_mem _ hm)
    have hline : (Kept.header l.number (String.ofList name) (qualifier.map String.ofList)).Of l := by
      refine ⟨rfl, ?_⟩
      simp [hheader, Function.comp_def]
    have hbody : Forall₂ Kept.Of ((segmentsOf body).flatMap Segment.expand) body := by
      refine keeps_segmentsOf fun m hm => ⟨hrest m ((takeWhile_sublist _).subset hm), ?_⟩
      simpa using mem_takeWhile_imp hm
    have hnext := ih (fun m hm => hrest m ((dropWhile_sublist _).subset hm)) (head_dropWhile isHeader rest)
    have hcut : body ++ next = rest := takeWhile_append_dropWhile
    rw [flatMap_cons, Block.expand, cons_append, ← hcut]
    exact .cons hline (rel_append hbody hnext)
  | case3 l rest next hnone ih =>
    have hheader := hhead l rfl
    rw [isHeader, hnone] at hheader
    cases hheader

theorem keeps_parse (text : String) : Forall₂ Kept.Of (parse text).expand (ofText text) := by
  have hrow : ∀ l ∈ ofText text, '\n' ∉ l.text.toList := not_mem_ofText
  have hpreamble : Forall₂ Kept.Of ((Text.rows (parse text).preamble).map .preamble)
      ((ofText text).takeWhile fun l => !l.isHeader) := by
    refine keeps_rows (fun l hl => hrow l ((takeWhile_sublist _).subset hl)) fun l hl => ⟨?_, rfl⟩
    simpa using mem_takeWhile_imp hl
  have hblocks : Forall₂ Kept.Of ((parse text).blocks.flatMap Block.expand)
      ((ofText text).dropWhile fun l => !l.isHeader) :=
    keeps_blocksOf (fun l hl => hrow l ((dropWhile_sublist _).subset hl)) (head_dropWhile isHeader _)
  rw [expand, ← takeWhile_append_dropWhile (p := fun l => !l.isHeader) (l := ofText text)]
  exact rel_append hpreamble hblocks

/-! What is reported of the fences of a block. -/

theorem faults_fencesOf (ls : List SourceLine) :
    Forall₂ ParseError.Reports ((fencesOf ls).flatMap fun f => f.lines.filterMap lineError?)
      ((fencesOf ls).flatMap fun f => f.lines.filterMap FenceLine.invalid?) := by
  fun_induction segmentsOf ls with
  | case1 =>
    rw [fencesOf_nil]
    exact .nil
  | case2 l rest label hlabel inner behind ih =>
    rw [fencesOf_opening hlabel]
    exact rel_append (faults_of_fenceLines inner) ih
  | case3 l rest hnone more ih =>
    rw [fencesOf_other hnone]
    exact ih

/-- A fence that no line closes is the last one. -/
theorem closed_fencesOf {ls : List SourceLine} : ∀ f ∈ (fencesOf ls).dropLast, f.closed = true := by
  fun_induction segmentsOf ls with
  | case1 => simp [fencesOf_nil]
  | case2 l rest label hlabel inner behind ih =>
    rw [fencesOf_opening hlabel]
    intro f hf
    by_cases hlast : fencesOf (behind.drop 1) = []
    · rw [hlast] at hf
      cases hf
    · rw [dropLast_cons_of_ne_nil hlast] at hf
      rcases mem_cons.mp hf with rfl | hf
      · have hbehind : behind ≠ [] := by
          intro hnil
          rw [hnil] at hlast
          exact hlast fencesOf_nil
        rw [Bool.not_eq_true', isEmpty_eq_false_iff]
        exact hbehind
      · exact ih f hf
  | case3 l rest hnone more ih =>
    rw [fencesOf_other hnone]
    exact ih

theorem filter_of_dropLast {α : Type} {p : α → Bool} {xs : List α} (h : ∀ x ∈ xs.dropLast, p x = false) :
    xs.filter p = (xs.getLast?.filter p).toList := by
  rcases eq_nil_or_concat xs with rfl | ⟨init, x, rfl⟩
  · rfl
  · rw [concat_eq_append] at h ⊢
    rw [dropLast_concat] at h
    have hinit : init.filter p = [] := filter_eq_nil_iff.mpr fun y hy => by simp [h y hy]
    rw [filter_append, hinit, getLast?_concat]
    by_cases hx : p x = true <;> simp [Option.filter, hx]

theorem reportsOpen_unclosedError (stop : Nat) (f : Fence) : (unclosedError stop f).ReportsOpen f := ⟨rfl, stop, rfl⟩

theorem fences_blocksOf {stop : Nat} {ls : List SourceLine} {b : Block} (hb : b ∈ blocksOf stop ls) :
    ∃ body, b.fences = fencesOf body := by
  fun_induction blocksOf stop ls with
  | case1 => cases hb
  | case2 l rest body next name qualifier hheader ih =>
    rcases mem_cons.mp hb with rfl | hb
    · exact ⟨body, fences_blockOf l.number name qualifier body _⟩
    · exact ih hb
  | case3 l rest next hnone ih => exact ih hb

/-- A document accounts for each line of the text that it is read from. -/
theorem accounts_parse (text : String) : (parse text).Accounts (ofText text) := by
  refine ⟨numbers_ofText text, keeps_parse text, fun b hb => ?_, fun b hb => ?_⟩
  · obtain ⟨body, hfences⟩ := fences_blocksOf hb
    obtain ⟨stop, herrors⟩ := errors_blocksOf hb
    rw [hfences] at herrors
    refine ⟨_, _, herrors, ?_, ?_⟩
    · rw [Block.invalidEntries, hfences]
      exact faults_fencesOf body
    · have hclosed : ∀ f ∈ (fencesOf body).dropLast, (!f.closed) = false := fun f hf => by simp [closed_fencesOf f hf]
      rw [Block.openFence?, hfences, ← filter_of_dropLast hclosed]
      exact forall₂_map_left_iff.mpr (forall₂_same.mpr fun f _ => reportsOpen_unclosedError stop f)
  · obtain ⟨body, hfences⟩ := fences_blocksOf hb
    rw [hfences]
    exact closed_fencesOf

end Document

end Morphology
