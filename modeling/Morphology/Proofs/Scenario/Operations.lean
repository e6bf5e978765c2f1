import Mathlib.Data.List.TakeWhile
import Morphology.Proofs.Text
import Morphology.Scenario.Operations

/-! Operations files taken apart. A file is what stands before its first marker and one block for each marker, and
nothing else; the steps are the blocks in their order. A file is refused only for the name behind a marker. -/

namespace Morphology.Operations

/-- Behind its blanks, `line` begins with `--#`, and `name` is what stands behind that. -/
def Marks (line name : String) : Prop := ∃ rest, Text.trim line = "--#" ++ rest ∧ Text.trim rest = name

/-- A marker with the lines that belong to it. -/
structure Block where
  marker : String
  name : String
  body : List String

namespace Block

def lines (b : Block) : List String := b.marker :: b.body

def text (b : Block) : String := Text.concat (b.body.map fun l => l ++ "\n")

def step (b : Block) : String × String := (b.name, b.text)

end Block

/-- The lines are cut before every marker, and nowhere else. -/
structure Cut (lines preamble : List String) (blocks : List Block) : Prop where
  lines : lines = preamble ++ blocks.flatMap Block.lines
  preamble : ∀ l ∈ preamble, ∀ name, ¬Marks l name
  marker : ∀ b ∈ blocks, Marks b.marker b.name
  body : ∀ b ∈ blocks, ∀ l ∈ b.body, ∀ name, ¬Marks l name

variable {line name : String} {lines preamble : List String} {blocks : List Block}

theorem marker?_eq_some : marker? line = some name ↔ Marks line name := by
  unfold marker? Text.behind? Marks
  constructor
  · intro h
    obtain ⟨rest, hrest, rfl⟩ := Option.map_eq_some_iff.mp h
    obtain ⟨cs, hcs, rfl⟩ := Option.map_eq_some_iff.mp hrest
    refine ⟨String.ofList cs, ?_, rfl⟩
    have htrim := Chars.behind?_eq_some hcs
    rw [← String.toList_inj, htrim, String.toList_append]
    exact congrArg _ String.toList_ofList.symm
  · rintro ⟨rest, htrim, rfl⟩
    rw [htrim, String.toList_append, Chars.behind?_append]
    simp

theorem marker?_eq_none : marker? line = none ↔ ∀ name, ¬Marks line name := by
  simp only [Option.eq_none_iff_forall_ne_some, ne_eq, marker?_eq_some]

theorem isMarker_eq_false (line : String) : isMarker line = false ↔ ∀ name, ¬Marks line name := by
  rw [isMarker, Option.isSome_eq_false_iff, Option.isNone_iff_eq_none, marker?_eq_none]

/-- A marker ends the block before it, so that nothing is left between two blocks. -/
theorem Cut.preamble_eq_nil {rest : List String} (h : Cut (rest.dropWhile fun l => !isMarker l) preamble blocks) :
    preamble = [] := by
  cases preamble with
  | nil => rfl
  | cons l preamble =>
    have hhead := List.head?_dropWhile_not (fun l => !isMarker l) rest
    rw [h.lines, List.cons_append, List.head?_cons] at hhead
    have hplain := (isMarker_eq_false l).mpr (h.preamble l List.mem_cons_self)
    simp [hplain] at hhead

theorem cut_stepsOf (lines : List String) :
    ∃ preamble blocks, Cut lines preamble blocks ∧ stepsOf lines = blocks.map Block.step := by
  induction lines using stepsOf.induct with
  | case1 => exact ⟨[], [], ⟨rfl, by simp, by simp, by simp⟩, by simp [stepsOf]⟩
  | case2 line rest hnone ih =>
    obtain ⟨preamble, blocks, hcut, hsteps⟩ := ih
    refine ⟨line :: preamble, blocks, ⟨?_, ?_, hcut.marker, hcut.body⟩, ?_⟩
    · rw [hcut.lines, List.cons_append]
    · exact List.forall_mem_cons.mpr ⟨marker?_eq_none.mp hnone, hcut.preamble⟩
    · rw [stepsOf, hnone]
      exact hsteps
  | case3 line rest name hname ih =>
    obtain ⟨preamble, blocks, hcut, hsteps⟩ := ih
    obtain rfl := hcut.preamble_eq_nil
    let b : Block := ⟨line, name, rest.takeWhile fun l => !isMarker l⟩
    refine ⟨[], b :: blocks, ⟨?_, by simp, ?_, ?_⟩, ?_⟩
    · have hrest := hcut.lines
      rw [List.nil_append] at hrest
      rw [List.nil_append, List.flatMap_cons, ← hrest, Block.lines, List.cons_append, List.takeWhile_append_dropWhile]
    · exact List.forall_mem_cons.mpr ⟨marker?_eq_some.mp hname, hcut.marker⟩
    · refine List.forall_mem_cons.mpr ⟨fun l hl => ?_, hcut.body⟩
      have hplain := List.mem_takeWhile_imp hl
      exact (isMarker_eq_false l).mp (by simpa using hplain)
    · rw [stepsOf, hname, List.map_cons]
      exact congrArg _ hsteps

/-- The names in the order in which their markers stand. -/
theorem Cut.names (h : Cut lines preamble blocks) : blocks.map Block.name = lines.filterMap marker? := by
  have hblock : ∀ b ∈ blocks, b.lines.filterMap marker? = [b.name] := by
    intro b hb
    have hbody : b.body.filterMap marker? = [] :=
      List.filterMap_eq_nil_iff.mpr fun l hl => marker?_eq_none.mpr (h.body b hb l hl)
    rw [Block.lines, List.filterMap_cons_some (marker?_eq_some.mpr (h.marker b hb)), hbody]
  have hpreamble : preamble.filterMap marker? = [] :=
    List.filterMap_eq_nil_iff.mpr fun l hl => marker?_eq_none.mpr (h.preamble l hl)
  rw [h.lines, List.filterMap_append, hpreamble, List.nil_append, List.filterMap_flatMap,
    List.flatMap_congr hblock]
  exact List.map_eq_flatMap

theorem checkNames_ok {seen names : List String} (h : checkNames seen names = .ok ()) :
    (∀ name ∈ names, name ≠ "" ∧ name ∉ seen) ∧ names.Nodup := by
  induction names generalizing seen with
  | nil => simp
  | cons name names ih =>
    rw [checkNames] at h
    split at h
    · cases h
    · rename_i hne
      split at h
      · cases h
      · rename_i hseen
        obtain ⟨hnames, hnodup⟩ := ih h
        have hname : name ∉ names := fun hin => (hnames name hin).2 List.mem_cons_self
        refine ⟨List.forall_mem_cons.mpr ⟨⟨?_, ?_⟩, fun n hn => ?_⟩, List.nodup_cons.mpr ⟨hname, hnodup⟩⟩
        · exact fun heq => hne (String.isEmpty_iff.mpr heq)
        · exact fun hin => hseen (List.contains_iff_mem.mpr hin)
        · exact ⟨(hnames n hn).1, fun hin => (hnames n hn).2 (List.mem_cons_of_mem _ hin)⟩

theorem checkNames_error {seen names : List String} {e : OperationsError} (h : checkNames seen names = .error e) :
    ∃ before name after, names = before ++ name :: after ∧ (name = "" ∨ name ∈ seen ∨ name ∈ before) := by
  induction names generalizing seen with
  | nil => cases h
  | cons name names ih =>
    rw [checkNames] at h
    split at h
    · rename_i hempty
      exact ⟨[], name, names, rfl, .inl (String.isEmpty_iff.mp hempty)⟩
    · split at h
      · rename_i hseen
        exact ⟨[], name, names, rfl, .inr (.inl (List.contains_iff_mem.mp hseen))⟩
      · obtain ⟨before, n, after, rfl, hn⟩ := ih h
        refine ⟨name :: before, n, after, rfl, ?_⟩
        simpa only [List.mem_cons, or_assoc, or_left_comm] using hn

/-- A marker without a name, or with the name of a marker above it. -/
def Faulty (lines : List String) : Prop :=
  ∃ before line after name, lines = before ++ line :: after ∧ Marks line name ∧
    (name = "" ∨ ∃ l ∈ before, Marks l name)

theorem faulty_iff : Faulty lines ↔
    ∃ before name after, lines.filterMap marker? = before ++ name :: after ∧ (name = "" ∨ name ∈ before) := by
  constructor
  · rintro ⟨before, line, after, name, rfl, hmarks, hfault⟩
    refine ⟨before.filterMap marker?, name, after.filterMap marker?, ?_, ?_⟩
    · rw [List.filterMap_append, List.filterMap_cons_some (marker?_eq_some.mpr hmarks)]
    · simpa only [List.mem_filterMap, marker?_eq_some] using hfault
  · rintro ⟨bs, name, as, heq, hfault⟩
    obtain ⟨before, rest, rfl, rfl, hrest⟩ := List.filterMap_eq_append_iff.mp heq
    obtain ⟨plain, line, after, rfl, hplain, hmarks, -⟩ := List.filterMap_eq_cons_iff.mp hrest
    refine ⟨before ++ plain, line, after, name, by simp, marker?_eq_some.mp hmarks, ?_⟩
    refine hfault.imp_right fun hin => ?_
    obtain ⟨l, hl, hmarks'⟩ := List.mem_filterMap.mp hin
    exact ⟨l, List.mem_append_left _ hl, marker?_eq_some.mp hmarks'⟩

/-- A file that is taken apart keeps every line: the steps are its blocks. -/
structure Splits (operations : Operations) (lines : List String) (blocks : List Block) : Prop where
  cut : ∃ preamble, Cut lines preamble blocks
  steps : operations.steps = blocks.map Block.step
  names : operations.steps.map (·.1) = lines.filterMap marker?
  nodup : (operations.steps.map (·.1)).Nodup
  named : ∀ name ∈ operations.steps.map (·.1), name ≠ ""
  keys : ∀ name, (operations.step? name).isSome ↔ name ∈ operations.steps.map (·.1)
  step? : ∀ name text, operations.step? name = some text ↔ ∃ b ∈ blocks, b.name = name ∧ b.text = text

theorem lookup_eq_some {steps : List (String × String)} (h : (steps.map (·.1)).Nodup) {text : String} :
    steps.lookup name = some text ↔ (name, text) ∈ steps := by
  rw [List.lookup_eq_some_iff]
  constructor
  · rintro ⟨before, after, rfl, -⟩
    simp
  · intro hin
    obtain ⟨before, after, rfl⟩ := List.append_of_mem hin
    refine ⟨before, after, rfl, fun p hp => ?_⟩
    rw [List.map_append, List.map_cons, List.nodup_append] at h
    have hne := h.2.2 p.1 (List.mem_map_of_mem hp) name List.mem_cons_self
    simpa using hne.symm

variable {text : String} {operations : Operations}

theorem map_stepsOf (lines : List String) : (stepsOf lines).map (·.1) = lines.filterMap marker? := by
  obtain ⟨preamble, blocks, hcut, hsteps⟩ := cut_stepsOf lines
  rw [hsteps, List.map_map, ← hcut.names]
  rfl

theorem parse_eq (text : String) :
    parse text = (checkNames [] ((Text.lines text).filterMap marker?)).map fun _ => ⟨stepsOf (Text.lines text)⟩ := by
  rw [← map_stepsOf]
  unfold parse
  dsimp only
  cases checkNames [] ((stepsOf (Text.lines text)).map (·.1)) <;> rfl

theorem parse_eq_error {e : OperationsError} (h : parse text = .error e) : Faulty (Text.lines text) := by
  rw [parse_eq] at h
  cases hcheck : checkNames [] ((Text.lines text).filterMap marker?) with
  | error e' => exact faulty_iff.mpr (by simpa using checkNames_error hcheck)
  | ok _ => simp [hcheck, Except.map] at h

theorem parse_eq_ok (h : parse text = .ok operations) :
    operations.steps = stepsOf (Text.lines text) ∧ checkNames [] ((Text.lines text).filterMap marker?) = .ok () := by
  rw [parse_eq] at h
  cases hcheck : checkNames [] ((Text.lines text).filterMap marker?) with
  | error e => simp [hcheck, Except.map] at h
  | ok _ =>
    rw [hcheck] at h
    cases h
    exact ⟨rfl, rfl⟩

theorem not_faulty (h : parse text = .ok operations) : ¬Faulty (Text.lines text) := by
  intro hfaulty
  obtain ⟨hnamed, hnodup⟩ := checkNames_ok (parse_eq_ok h).2
  obtain ⟨before, name, after, heq, hfault⟩ := faulty_iff.mp hfaulty
  rw [heq] at hnamed hnodup
  have hname := (hnamed name (List.mem_append_right _ List.mem_cons_self)).1
  have hfresh : name ∉ before := fun hin =>
    (List.nodup_append.mp hnodup).2.2 name hin name List.mem_cons_self rfl
  exact hfault.elim hname hfresh

theorem splits_of_ok (h : parse text = .ok operations) : ∃ blocks, operations.Splits (Text.lines text) blocks := by
  obtain ⟨heq, hcheck⟩ := parse_eq_ok h
  obtain ⟨hnamed, hnodup⟩ := checkNames_ok hcheck
  obtain ⟨preamble, blocks, hcut, hsteps⟩ := cut_stepsOf (Text.lines text)
  rw [← heq] at hsteps
  have hnames : operations.steps.map (·.1) = (Text.lines text).filterMap marker? := by rw [heq, map_stepsOf]
  rw [← hnames] at hnamed hnodup
  have hlookup {name step : String} : operations.step? name = some step ↔ (name, step) ∈ operations.steps :=
    lookup_eq_some hnodup
  refine ⟨blocks, ⟨preamble, hcut⟩, hsteps, hnames, hnodup, fun name hname => (hnamed name hname).1, ?_, ?_⟩
  · intro name
    simp only [Option.isSome_iff_exists, hlookup, List.mem_map, Prod.exists, exists_and_right, exists_eq_right]
  · intro name step
    rw [hlookup, hsteps]
    simp only [List.mem_map, Block.step, Prod.mk.injEq]

/-- A file is refused if and only if a marker has no name or one that stands above it. Every other file is cut before
its markers, and each step has the lines up to the next marker or the end, in their order. -/
theorem parse_cuts (text : String) :
    ((∃ e, parse text = .error e) ↔ Faulty (Text.lines text)) ∧
      ∀ operations, parse text = .ok operations → ∃ blocks, operations.Splits (Text.lines text) blocks := by
  refine ⟨⟨fun ⟨_, herror⟩ => parse_eq_error herror, fun hfaulty => ?_⟩, fun _ hok => splits_of_ok hok⟩
  cases hparse : parse text with
  | error e => exact ⟨e, rfl⟩
  | ok operations => exact absurd hfaulty (not_faulty hparse)

def nestFile : String := "Notes.\n  --# build \n  +: lays\n\n--#rest\n--# leave\n-: lays"

/-- What stands before the first marker is left out, a step may have no lines, and the last line gets a break. -/
theorem parse_nestFile : ∃ operations blocks, parse nestFile = .ok operations ∧
    operations.Splits (Text.lines nestFile) blocks ∧
    operations.steps = [("build", "  +: lays\n\n"), ("rest", ""), ("leave", "-: lays\n")] := by
  have hparse : parse nestFile = .ok ⟨[("build", "  +: lays\n\n"), ("rest", ""), ("leave", "-: lays\n")]⟩ := by
    decide +kernel
  obtain ⟨blocks, hsplits⟩ := (parse_cuts nestFile).2 _ hparse
  exact ⟨_, blocks, hparse, hsplits, rfl⟩

end Morphology.Operations
