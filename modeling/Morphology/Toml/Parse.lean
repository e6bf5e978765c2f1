import Morphology.Toml.Lexeme
import Morphology.Toml.Number

/-! TOML documents read from text. Values may stand inside one another to a limited depth only. -/

namespace Morphology.Toml

open Reader

def isNumberChar (c : Char) : Bool :=
  c.isAlphanum || c == '_' || c == '+' || c == '-' || c == '.' || c == ':'

/-- The time that may follow a date behind one blank. -/
def timeBehindBlank : Reader (List Char) := fun cs =>
  match cs with
  | ' ' :: c :: rest =>
    if c.isDigit then some (' ' :: (c :: rest).takeWhile isNumberChar, (c :: rest).dropWhile isNumberChar)
    else some ([], cs)
  | _ => some ([], cs)

def number : Reader Toml := do
  let front ← takeSome isNumberChar
  let back ← if isDay front then timeBehindBlank else pure []
  match ofNumber? (front ++ back) with
  | some v => return v
  | none => failure

def simpleValue : Reader Toml := do
  if ← (do return (← ahead ['"']) || (← ahead ['\''])) then (fun cs => .string (String.ofList cs)) <$> anyString
  else if ← accept ['t', 'r', 'u', 'e'] then return .boolean true
  else if ← accept ['f', 'a', 'l', 's', 'e'] then return .boolean false
  else number

def separated {α : Type} (item : Reader α) : Reader (List α) := do
  let first ← item
  let rest ← many do
    if ← accept [','] then some <$> item else return none
  return first :: rest

def listItem (value : Reader Toml) : Reader (Option Toml) := do
  skipLines
  if ← ahead [']'] then return none
  let v ← value
  skipLines
  if ← accept [','] then return some v
  if ← ahead [']'] then return some v else failure

/-- The items of a list, behind its bracket; a comma may follow the last one. -/
def listItems (value : Reader Toml) : Reader Toml := do
  let items ← many (listItem value)
  expect [']']
  return .list items

def keyValue (value : Reader Toml) : Reader (List String × Toml) := do
  let k ← key
  expect ['=']
  spaces
  let v ← value
  spaces
  return (k, v)

def pairsBehindBrace (value : Reader Toml) : Reader (List (List String × Toml)) := do
  spaces
  if ← ahead ['\x7d'] then return [] else separated (keyValue value)

def inlineBehindBrace (value : Reader Toml) : Reader Toml := do
  let pairs ← pairsBehindBrace value
  expect ['\x7d']
  match inlineTable pairs with
  | some t => return t
  | none => failure

/-- A value with at most `depth` others around one another inside it. -/
def value : Nat → Reader Toml
  | 0 => do
    if ← (do return (← ahead ['[']) || (← ahead ['\x7b'])) then failure else simpleValue
  | depth + 1 => do
    if ← accept ['['] then listItems (value depth)
    else if ← accept ['\x7b'] then inlineBehindBrace (value depth)
    else simpleValue

/-- A document in the making: what it holds so far, and the table that lines are for. -/
structure Draft where
  fields : Fields := []
  path : List String := []

namespace Draft

def addValue (draft : Draft) (k : List String) (v : Toml) : Option Draft :=
  (modifyAt (put v k) draft.path draft.fields).map fun fields => { draft with fields := fields }

/-- Goes on with the table of a header. -/
def startTable (place : String → Fields → Option Fields) (draft : Draft) (path : List String) :
    Option Draft :=
  match path.getLast? with
  | none => none
  | some last =>
    (modifyAt (place last) path.dropLast draft.fields).map fun fields => ⟨fields, path⟩

end Draft

/-- One step of a document, as the change it makes to the draft; nothing at the end of the text. -/
def line : Reader (Option (Draft → Option Draft)) := do
  spaces
  match ← peek with
  | none => return none
  | some '[' =>
    let several ← accept ['[', '[']
    if !several then expect ['[']
    let path ← key
    expect (if several then [']', ']'] else [']'])
    endOfLine
    return some fun draft => draft.startTable (if several then addTable else openTable) path
  | some c =>
    if c = '#' ∨ c = '\n' ∨ c = '\r' then
      endOfLine
      return some some
    else
      let (k, v) ← keyValue (value greatestDepth)
      endOfLine
      return some fun draft => draft.addValue k v

def document : Reader Fields := do
  let _ ← accept ['\ufeff']
  let steps ← many line
  match steps.foldlM (fun draft step => step draft) ({} : Draft) with
  | some draft => return draft.fields
  | none => failure

def parse? (text : String) : Option Fields := (document text.toList).map (·.1)

end Morphology.Toml
