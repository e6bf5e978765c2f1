import Morphology.Proofs.Scenario.Operations
import Morphology.Proofs.Table

/-! Operations files loaded one line at a time. The loader holds the step that is being read, and hands it over at the
next marker and at the end. It refuses what is refused of the names in their order, and loads the steps that the file
is cut into. -/

namespace Morphology.Operations

/-- A file that is being loaded: the steps that were read, the names so far, and the step that is being read. -/
structure Loading where
  steps : Table String String := ∅
  order : List String := []
  current : Option (String × String) := none

namespace Loading

/-- The steps that were read, and the one that is being read. -/
def stored (s : Loading) : Table String String :=
  match s.current with
  | some (name, content) => s.steps.insert name content
  | none => s.steps

def push (s : Loading) (line : String) : Except OperationsError Loading :=
  match marker? line with
  | some name =>
    if name.isEmpty then .error .emptyName
    else if s.order.contains name then .error (.duplicate name)
    else .ok ⟨s.stored, s.order ++ [name], some (name, "")⟩
  | none => .ok { s with current := s.current.map fun (name, content) => (name, content ++ (line ++ "\n")) }

/-- What is loaded in the end: the steps by their names, and the names in their order. -/
def run (s : Loading) (lines : List String) : Except OperationsError (Table String String × List String) :=
  (lines.foldlM push s).map fun s => (s.stored, s.order)

end Loading

/-- A file that was loaded. -/
structure Loaded where
  source : String
  steps : Table String String
  /-- The names of the steps in the order of their markers. -/
  order : List String

def load (text : String) : Except OperationsError Loaded :=
  (Loading.run {} (Text.lines text)).map fun (steps, order) => ⟨text, steps, order⟩

def insertAll (t : Table String String) (steps : List (String × String)) : Table String String :=
  steps.foldl (fun t step => t.insert step.1 step.2) t

/-- The steps as a file that was loaded keeps them. -/
def loaded (operations : Operations) (text : String) : Loaded where
  source := text
  steps := insertAll ∅ operations.steps
  order := operations.steps.map (·.1)

variable {t : Table String String} {order seen : List String} {line name content : String} {lines : List String}

namespace Loading

theorem run_nil (s : Loading) : s.run [] = .ok (s.stored, s.order) := rfl

theorem run_cons (s : Loading) (line : String) (lines : List String) :
    s.run (line :: lines) =
      match s.push line with
      | .ok s' => s'.run lines
      | .error e => .error e := by
  rw [run, List.foldlM_cons]
  cases s.push line with
  | ok s' => rfl
  | error e => rfl

/-- The lines up to the next marker go to the step that is being read, and it is stored behind them. -/
theorem run_current (lines : List String) (content : String) :
    run ⟨t, order, some (name, content)⟩ lines =
      run ⟨t.insert name (content ++ Text.concat ((lines.takeWhile fun l => !isMarker l).map fun l => l ++ "\n")),
        order, none⟩ (lines.dropWhile fun l => !isMarker l) := by
  induction lines generalizing content with
  | nil => simp [run_nil, stored, Text.concat]
  | cons line lines ih =>
    cases hmarker : marker? line with
    | some n => simp [isMarker, hmarker, run_cons, push, stored, Text.concat]
    | none =>
      have htake : (line :: lines).takeWhile (fun l => !isMarker l) = line :: lines.takeWhile fun l => !isMarker l := by
        simp [isMarker, hmarker]
      have hdrop : (line :: lines).dropWhile (fun l => !isMarker l) = lines.dropWhile fun l => !isMarker l := by
        simp [isMarker, hmarker]
      have hpush : push ⟨t, order, some (name, content)⟩ line =
          .ok ⟨t, order, some (name, content ++ (line ++ "\n"))⟩ := by simp [push, hmarker]
      rw [run_cons, hpush, htake, hdrop]
      simp only [ih, List.map_cons, Text.concat, List.foldr_cons, String.append_assoc]

theorem filterMap_dropWhile (lines : List String) :
    (lines.dropWhile fun l => !isMarker l).filterMap marker? = lines.filterMap marker? := by
  have hplain : (lines.takeWhile fun l => !isMarker l).filterMap marker? = [] := by
    refine List.filterMap_eq_nil_iff.mpr fun l hl => ?_
    simpa [isMarker] using List.mem_takeWhile_imp hl
  have hcut := congrArg (List.filterMap marker?) (List.takeWhile_append_dropWhile (l := lines) (p := fun l => !isMarker l))
  rwa [List.filterMap_append, hplain, List.nil_append] at hcut

/-- Names are checked one after the other, and each step is stored under its own. -/
theorem run_eq (lines : List String) (t : Table String String) (order seen : List String)
    (hseen : ∀ name, name ∈ seen ↔ name ∈ order) :
    run ⟨t, order, none⟩ lines = (checkNames seen (lines.filterMap marker?)).map fun _ =>
      (insertAll t (stepsOf lines), order ++ lines.filterMap marker?) := by
  induction lines using stepsOf.induct generalizing t order seen with
  | case1 => simp [run_nil, stored, stepsOf, insertAll, checkNames, Except.map]
  | case2 line rest hnone ih =>
    rw [run_cons, stepsOf, hnone, List.filterMap_cons_none hnone]
    simp only [push, hnone, Option.map_none]
    exact ih t order seen hseen
  | case3 line rest name hname ih =>
    have hcontains : order.contains name = seen.contains name := by
      rw [Bool.eq_iff_iff, List.contains_iff_mem, List.contains_iff_mem, hseen]
    rw [run_cons, stepsOf, hname, List.filterMap_cons_some hname, checkNames, push, hname]
    simp only [hcontains]
    by_cases hempty : name.isEmpty = true
    · simp [hempty, Except.map]
    · by_cases hused : seen.contains name = true
      · rw [if_neg hempty, if_pos hused, if_neg hempty, if_pos hused]
        rfl
      · have hseen' : ∀ n, n ∈ name :: seen ↔ n ∈ order ++ [name] := by
          intro n
          rw [List.mem_cons, hseen, List.mem_append, List.mem_singleton, or_comm]
        rw [if_neg hempty, if_neg hused, if_neg hempty, if_neg hused]
        dsimp only
        rw [run_current, ih _ _ _ hseen', filterMap_dropWhile]
        simp [stored, insertAll]

end Loading

/-- Loading line by line refuses what `parse` refuses, and loads the steps that it cuts. -/
theorem load_eq_parse (text : String) : load text = (parse text).map fun operations => operations.loaded text := by
  rw [load, Loading.run_eq _ ∅ [] [] (fun _ => Iff.rfl), parse_eq]
  cases checkNames [] ((Text.lines text).filterMap marker?) with
  | error e => rfl
  | ok _ => simp [Except.map, loaded, map_stepsOf]

theorem get?_insertAll {steps : List (String × String)} (h : (steps.map (·.1)).Nodup) (t : Table String String)
    (name : String) : (insertAll t steps).get? name = (steps.lookup name).or (t.get? name) := by
  induction steps generalizing t with
  | nil => simp [insertAll]
  | cons step steps ih =>
    obtain ⟨key, content⟩ := step
    obtain ⟨hfresh, hnodup⟩ := List.nodup_cons.mp h
    rw [insertAll, List.foldl_cons]
    refine (ih hnodup _).trans ?_
    by_cases hname : name = key
    · subst hname
      have hnone : steps.lookup name = none := by
        refine List.lookup_eq_none_iff.mpr fun p hp => ?_
        have hin : p.1 ∈ steps.map (·.1) := List.mem_map_of_mem hp
        have hne : name ≠ p.1 := fun heq => hfresh (heq ▸ hin)
        simpa using hne
      simp [hnone, Table.lookup_insert_self]
    · have hne : (name == key) = false := by simpa using hname
      simp [Table.lookup_insert, hname, List.lookup_cons, hne]

/-- A step that was loaded is found under its name. -/
theorem get?_loaded {text : String} {operations : Operations} (h : parse text = .ok operations) (name : String) :
    (operations.loaded text).steps.get? name = operations.step? name := by
  obtain ⟨blocks, hsplits⟩ := splits_of_ok h
  have hget := get?_insertAll hsplits.nodup ∅ name
  have hnone : (∅ : Table String String).get? name = none := rfl
  rwa [hnone, Option.or_none] at hget

end Morphology.Operations
