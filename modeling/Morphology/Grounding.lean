import Morphology.Graph.Basic
import Morphology.Schema.Basic
import Morphology.Statement.Basic

/-! Statements held against the schema and the graph. Grounding only reads: a target that does not exist yet is
left pending, and every objection to a statement is collected. -/

namespace Morphology

inductive GroundingFault where
  | unknownType
  | domainRangeMismatch
  | badDataType
  | disallowedValue
  deriving DecidableEq, Repr

def GroundingFault.text : GroundingFault → String
  | unknownType => "unknown type"
  | domainRangeMismatch => "domain/range mismatch"
  | badDataType => "bad data type"
  | disallowedValue => "disallowed value"

structure GroundingError where
  fault : GroundingFault
  /-- The part of the statement at fault. -/
  field : String
  value : String
  /-- The line in the document, 0 outside of one. -/
  line : Nat
  expected : Option String
  deriving DecidableEq, Repr

namespace GroundingError

def message (e : GroundingError) : String :=
  let expected :=
    match e.expected with
    | some text => " (expected " ++ text ++ ")"
    | none => ""
  e.fault.text ++ " at line " ++ Text.ofNat e.line ++ ": " ++ e.field ++ " '" ++ e.value ++ "'" ++ expected

def alternatives (values : List String) : String := Text.join " | " values

def badDataType (value : String) (type : DataType) (line : Nat) : GroundingError :=
  ⟨.badDataType, "value", value, line, some type.name⟩

def disallowed (value : String) (allowed : List String) (line : Nat) : GroundingError :=
  ⟨.disallowedValue, "value", value, line, some (alternatives allowed)⟩

end GroundingError

inductive Target where
  | resolved (id : NodeId)
  | pending (name : String) (qualifier : Option String)
  deriving DecidableEq, Repr

structure GroundedRelation where
  /-- In the spelling of the schema, where it knows the type. -/
  name : String
  source : NodeId
  target : Target
  modifiers : RelationModifiers
  deriving DecidableEq, Repr

structure GroundedAttribute where
  name : String
  owner : NodeId
  value : String
  typed : Option Value
  modifiers : AttributeModifiers
  deriving DecidableEq, Repr

inductive GroundedEdge where
  | relation (r : GroundedRelation)
  | attr (a : GroundedAttribute)
  deriving DecidableEq, Repr

structure Grounding where
  edge : GroundedEdge
  errors : List GroundingError
  deriving DecidableEq, Repr

namespace Grounding

variable (schema : Schema) (g : Graph)

def nodeTypeOf (id : NodeId) : Option String := (g.nodes.get? id).bind (·.nodeType)

/-- The objection to a node of this type where only `allowed` types may stand. -/
def checkEnd (field : String) (nodeType : Option String) (allowed : List String) (line : Nat) :
    List GroundingError :=
  match nodeType with
  | none => []
  | some t =>
    if schema.satisfies t allowed then []
    else [⟨.domainRangeMismatch, field, t, line, some (GroundingError.alternatives allowed)⟩]

def targetOf (s : RelationStatement) : Target :=
  match g.lookup s.targetName s.targetQualifier with
  | some node => .resolved node.id
  | none => .pending (Text.collapse s.targetName) s.targetQualifier

def targetType : Target → Option String
  | .resolved id => nodeTypeOf g id
  | .pending _ _ => none

def ofRelation (source : NodeId) (s : RelationStatement) (line : Nat) : Grounding :=
  let target := targetOf g s
  let modifiers : RelationModifiers :=
    ⟨s.adverb, s.modality, s.subjectQuantifier, s.targetQuantifier, s.targetQualifier⟩
  match schema.relationType? s.name with
  | none =>
    ⟨.relation ⟨Text.collapse s.name, source, target, modifiers⟩,
      [⟨.unknownType, "relation", s.name, line, none⟩]⟩
  | some d =>
    ⟨.relation ⟨d.name, source, target, modifiers⟩,
      checkEnd schema "domain" (nodeTypeOf g source) d.domain line ++
        checkEnd schema "range" (targetType g target) d.range line⟩

/-- The value a text stands for under a type, and the objection to it. -/
def checkValue (d : AttributeType) (value : String) (line : Nat) : Option Value × List GroundingError :=
  match d.dataType.coerce value with
  | none => (none, [.badDataType value d.dataType line])
  | some v => (some v, if d.allows value then [] else [.disallowed value d.allowedValues line])

def ofAttribute (owner : NodeId) (s : AttributeStatement) (line : Nat) : Grounding :=
  let modifiers : AttributeModifiers := ⟨s.unit, s.adverb, s.modality, none⟩
  match schema.attributeType? s.name with
  | none =>
    ⟨.attr ⟨Text.collapse s.name, owner, s.value, none, modifiers⟩,
      [⟨.unknownType, "attribute", s.name, line, none⟩]⟩
  | some d =>
    let (typed, errors) := checkValue d s.value line
    ⟨.attr ⟨d.name, owner, s.value, typed, modifiers⟩, errors⟩

/-- A statement written in the block of `node`. -/
def ofStatement (node : NodeId) (s : Statement) (line : Nat) : Grounding :=
  match s with
  | .relation r => ofRelation schema g node r line
  | .attr a => ofAttribute schema node a line

end Grounding

end Morphology
