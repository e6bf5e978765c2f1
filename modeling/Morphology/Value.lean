import Morphology.Number.Shortest
import Morphology.Text.Lowercase

/-! Attribute values. A value is written as text; the data type of its attribute says whether the text is fit
and which value it stands for. -/

namespace Morphology

inductive DataType where
  | string
  | number
  | boolean
  | float
  deriving DecidableEq, Repr

inductive Value where
  | bool (b : Bool)
  | int (n : Int)
  | float (x : Binary64)
  | string (s : String)
  deriving DecidableEq, Repr

namespace DataType

def name : DataType → String
  | string => "string"
  | number => "number"
  | boolean => "boolean"
  | float => "float"

/-- The data type of that name; an unknown name comes back trimmed and in small letters. -/
def ofName (text : String) : Except String DataType :=
  let key := Text.lowercaseAscii (Text.trim text)
  if key = "string" then .ok string
  else if key = "number" ∨ key = "int" ∨ key = "integer" then .ok number
  else if key = "boolean" ∨ key = "bool" then .ok boolean
  else if key = "float" ∨ key = "double" then .ok float
  else .error key

def unknownMessage (key : String) : String :=
  "unknown data type '" ++ key ++ "'"

def readBool? (s : String) : Option Bool :=
  let key := Text.lowercaseAscii s
  if key = "true" ∨ key = "yes" then some true
  else if key = "false" ∨ key = "no" then some false
  else none

/-- The value a text stands for, blanks around it ignored. A number is an integer wherever the text is one
of 64 bits. -/
def coerce (type : DataType) (raw : String) : Option Value :=
  let text := Text.trim raw
  match type with
  | string => some (.string text)
  | number =>
    match Chars.readInt? text.toList with
    | some n => some (.int n)
    | none => (Binary64.read? text.toList).map .float
  | float => (Binary64.read? text.toList).map .float
  | boolean => (readBool? text).map .bool

end DataType

namespace Value

def boolText (b : Bool) : String :=
  if b then "true" else "false"

def text : Value → String
  | bool b => boolText b
  | int n => Text.ofInt n
  | float x => x.plainText
  | string s => s

/-- As `text`, with strings between quotation marks. -/
def display : Value → String
  | string s => "\"" ++ s ++ "\""
  | v => v.text

def typeName : Value → String
  | bool _ => "boolean"
  | int _ => "number"
  | float _ => "float"
  | string _ => "string"

def asBool? : Value → Option Bool
  | bool b => some b
  | _ => none

def asInt? : Value → Option Int
  | int n => some n
  | _ => none

/-- Integers widen to the nearest binary64 number. -/
def asFloat? : Value → Option Binary64
  | float x => some x
  | int n => some (Binary64.ofInt n)
  | _ => none

def asString? : Value → Option String
  | string s => some s
  | _ => none

/-- Numbers are compared as binary64 numbers, other values as they are. -/
def same (a b : Value) : Bool :=
  match a.asFloat?, b.asFloat? with
  | some x, some y => x.same y
  | _, _ => a == b

end Value

end Morphology
