import Morphology.Text.Split

/-! Statements, and the canonical line for each: the present parts in a fixed order, single spaces between
them, every marked part inside its delimiters. -/

namespace Morphology

structure RelationStatement where
  subjectQuantifier : Option String := none
  adverb : Option String := none
  name : String
  targetQuantifier : Option String := none
  targetQualifier : Option String := none
  targetName : String
  modality : Option String := none
  deriving DecidableEq, Repr

structure AttributeStatement where
  name : String
  adverb : Option String := none
  value : String
  unit : Option String := none
  modality : Option String := none
  deriving DecidableEq, Repr

inductive Statement where
  | relation (r : RelationStatement)
  | attr (a : AttributeStatement)
  deriving DecidableEq, Repr

/-- A part between its delimiters, nothing for a part that is absent. -/
def wrapped (opening : String) (part : Option String) (closing : String) : List String :=
  match part with
  | some text => [opening ++ text ++ closing]
  | none => []

def RelationStatement.parts (r : RelationStatement) : List String :=
  wrapped "*" r.subjectQuantifier "*" ++ wrapped "++" r.adverb "++" ++ ["<" ++ r.name ++ ">"] ++
    wrapped "*" r.targetQuantifier "*" ++ wrapped "**" r.targetQualifier "**" ++ [r.targetName] ++
    wrapped "[" r.modality "]"

def AttributeStatement.parts (a : AttributeStatement) : List String :=
  ["has " ++ a.name ++ ":"] ++ wrapped "++" a.adverb "++" ++ [a.value] ++ wrapped "*" a.unit "*" ++
    wrapped "[" a.modality "]"

namespace Statement

def name : Statement → String
  | relation r => r.name
  | attr a => a.name

def modality : Statement → Option String
  | relation r => r.modality
  | attr a => a.modality

def render : Statement → String
  | relation r => Text.join " " r.parts
  | attr a => Text.join " " a.parts

end Statement

end Morphology
