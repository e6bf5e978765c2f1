/-! TOML documents as trees, and the rules by which lines and headers build them. A table may be named by the
headers of its parts, made by dotted keys, given a header of its own, or written inline; what may still be
added to it depends on which. -/

namespace Morphology

inductive TomlForm where
  /-- Named in the headers of its parts only. -/
  | implied
  /-- Made by dotted keys. -/
  | dotted
  | headed
  /-- Written as a value. -/
  | closed
  deriving DecidableEq, Repr

inductive Toml where
  | string (s : String)
  | integer (n : Int)
  | float (text : String)
  | boolean (b : Bool)
  | date (text : String)
  | list (items : List Toml)
  | table (form : TomlForm) (fields : List (String × Toml))
  /-- The tables under double-bracket headers, each a table. -/
  | tables (items : List Toml)
  deriving Inhabited

namespace Toml

abbrev Fields : Type := List (String × Toml)

def find? (key : String) : Fields → Option Toml
  | [] => none
  | (k, v) :: rest => if k = key then some v else find? key rest

/-- Puts `v` at `key`, in place of what is there. -/
def assign (key : String) (v : Toml) : Fields → Fields
  | [] => [(key, v)]
  | (k, old) :: rest => if k = key then (k, v) :: rest else (k, old) :: assign key v rest

def insertNew (key : String) (v : Toml) (fields : Fields) : Option Fields :=
  match find? key fields with
  | some _ => none
  | none => some (fields ++ [(key, v)])

/-- Changes the fields of the last of several tables. -/
def modifyLast (f : Fields → Option Fields) : List Toml → Option (List Toml)
  | [] => none
  | [.table form fields] => (f fields).map fun fields => [.table form fields]
  | item :: items => (modifyLast f items).map (item :: ·)

/-- Changes the fields of the table that a header path names, the last one of several tables. -/
def modifyAt (f : Fields → Option Fields) : List String → Fields → Option Fields
  | [], fields => f fields
  | key :: path, fields =>
    match find? key fields with
    | none => (modifyAt f path []).map fun inner => assign key (.table .implied inner) fields
    | some (.table form inner) =>
      if form = .closed then none
      else (modifyAt f path inner).map fun inner => assign key (.table form inner) fields
    | some (.tables items) =>
      (modifyLast (modifyAt f path) items).map fun items => assign key (.tables items) fields
    | some _ => none

/-- Puts a value at a dotted key. The last table on the way is one that dotted keys made. -/
def put (v : Toml) : List String → Fields → Option Fields
  | [], _ => none
  | [key], fields => insertNew key v fields
  | key :: path, fields =>
    match find? key fields with
    | none => (put v path []).map fun inner => assign key (.table .dotted inner) fields
    | some (.table form inner) =>
      if form = .dotted ∨ (form = .implied ∧ 1 < path.length) then
        (put v path inner).map fun inner => assign key (.table form inner) fields
      else none
    | some (.tables items) =>
      if 1 < path.length then
        (modifyLast (put v path) items).map fun items => assign key (.tables items) fields
      else none
    | some _ => none

/-- A header gives a table that was only implied so far a place of its own. -/
def openTable (key : String) (fields : Fields) : Option Fields :=
  match find? key fields with
  | none => some (fields ++ [(key, .table .headed [])])
  | some (.table .implied inner) => some (assign key (.table .headed inner) fields)
  | some _ => none

/-- A double-bracket header adds one more table. -/
def addTable (key : String) (fields : Fields) : Option Fields :=
  match find? key fields with
  | none => some (fields ++ [(key, .tables [.table .headed []])])
  | some (.tables items) => some (assign key (.tables (items ++ [.table .headed []])) fields)
  | some _ => none

/-- An inline table made of its dotted keys and their values. -/
def inlineTable (pairs : List (List String × Toml)) : Option Toml :=
  (pairs.foldlM (fun fields p => put p.2 p.1 fields) []).map (.table .closed)

end Toml

end Morphology
