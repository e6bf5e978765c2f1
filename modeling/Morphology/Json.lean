import Morphology.Number.Shortest
import Morphology.Text.Quoted

/-! JSON values written over several lines, two spaces to a level; empty lists and objects stay on one line. -/

namespace Morphology

inductive Json where
  | bool (b : Bool)
  | int (n : Int)
  | float (x : Binary64)
  | string (s : String)
  | list (items : List Json)
  | object (fields : List (String × Json))

namespace Json

def newline (level : Nat) : String :=
  "\n" ++ String.ofList (List.replicate (2 * level) ' ')

mutual

def render (level : Nat) : Json → String
  | bool b => if b then "true" else "false"
  | int n => Text.ofInt n
  | float x => x.jsonText
  | string s => Text.jsonString s
  | list [] => "[]"
  | list (item :: items) =>
    "[" ++ newline (level + 1) ++ item.render (level + 1) ++ renderItems (level + 1) items ++
      newline level ++ "]"
  | object [] => "\x7b\x7d"
  | object ((key, value) :: fields) =>
    "\x7b" ++ newline (level + 1) ++ Text.jsonString key ++ ": " ++ value.render (level + 1) ++
      renderFields (level + 1) fields ++ newline level ++ "\x7d"

def renderItems (level : Nat) : List Json → String
  | [] => ""
  | item :: items => "," ++ newline level ++ item.render level ++ renderItems level items

def renderFields (level : Nat) : List (String × Json) → String
  | [] => ""
  | (key, value) :: fields =>
    "," ++ newline level ++ Text.jsonString key ++ ": " ++ value.render level ++ renderFields level fields

end

def pretty (json : Json) : String := json.render 0

/-- A field that is left out when there is no value. -/
def field? (key : String) (value : Option String) : List (String × Json) :=
  match value with
  | some s => [(key, string s)]
  | none => []

end Json

end Morphology
