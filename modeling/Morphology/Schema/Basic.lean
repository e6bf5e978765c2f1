import Morphology.Refusal
import Morphology.Search
import Morphology.Value

/-! The schema: types of nodes, relations and attributes in two tiers. The shared tier is fixed; the own tier of
a graph can be edited. Names are looked up by their folded form, in the shared tier first. -/

namespace Morphology

inductive TypeKind where
  | nodeType
  | relationType
  | attributeType
  deriving DecidableEq, Repr

def TypeKind.name : TypeKind → String
  | nodeType => "node type"
  | relationType => "relation type"
  | attributeType => "attribute type"

structure NodeType where
  name : String
  description : String := ""
  parents : List String := []
  deriving DecidableEq, Repr

structure RelationType where
  name : String
  description : String := ""
  /-- The node types allowed as source; any if there are none. -/
  domain : List String := []
  /-- The node types allowed as target; any if there are none. -/
  range : List String := []
  symmetric : Bool := false
  transitive : Bool := false
  inverse : Option String := none
  deriving DecidableEq, Repr

def RelationType.mentioned (d : RelationType) : List String :=
  d.domain ++ d.range

structure AttributeType where
  name : String
  description : String := ""
  dataType : DataType := .string
  unit : Option String := none
  /-- Any value of the data type if there are none. -/
  allowedValues : List String := []
  deriving DecidableEq, Repr

/-- Strings, and texts that are no value of the data type, are compared by their folded form; other texts
by the values they stand for. -/
def AttributeType.allows (d : AttributeType) (value : String) : Bool :=
  if d.allowedValues.isEmpty then true
  else
    match if d.dataType = .string then none else d.dataType.coerce value with
    | none => d.allowedValues.any fun allowed => Text.fold allowed == Text.fold value
    | some v => (d.allowedValues.filterMap d.dataType.coerce).any fun allowed => allowed.same v

inductive SchemaError where
  | duplicate (e : DuplicateError)
  | readOnly (kind : TypeKind) (name : String)
  | notFound (kind : TypeKind) (name : String)
  | emptyName (kind : TypeKind)
  | unknownParent (name : String)
  | inheritanceCycle (name : String)
  | unknownNodeType (relation name : String)
  | badAllowedValue (attributeName value : String) (dataType : DataType)
  | inUse (kind : TypeKind) (name : String) (count : Nat)
  deriving DecidableEq, Repr

def SchemaError.message : SchemaError → String
  | duplicate e => e.message
  | readOnly kind name => kind.name ++ " '" ++ name ++ "' belongs to the global tier and is read-only"
  | notFound kind name => kind.name ++ " not found: " ++ name
  | emptyName kind => kind.name ++ " name must not be empty"
  | unknownParent name => "Unknown parent type: " ++ name
  | inheritanceCycle name => "Inheritance cycle detected involving type: " ++ name
  | unknownNodeType relation name =>
    "relation type '" ++ relation ++ "' names unknown node type '" ++ name ++ "'"
  | badAllowedValue attributeName value dataType =>
    "allowed value '" ++ value ++ "' of attribute type '" ++ attributeName ++ "' is not a valid " ++
      dataType.name
  | inUse kind name count =>
    kind.name ++ " '" ++ name ++ "' is still used by " ++ Text.ofNat count ++ " record(s)"

structure SchemaTier where
  nodeTypes : Table String NodeType := ∅
  relationTypes : Table String RelationType := ∅
  attributeTypes : Table String AttributeType := ∅
  deriving DecidableEq

namespace SchemaTier

def nodeType? (tier : SchemaTier) (name : String) : Option NodeType :=
  tier.nodeTypes.get? (Text.fold name)

def relationType? (tier : SchemaTier) (name : String) : Option RelationType :=
  tier.relationTypes.get? (Text.fold name)

def attributeType? (tier : SchemaTier) (name : String) : Option AttributeType :=
  tier.attributeTypes.get? (Text.fold name)

def contains (tier : SchemaTier) (kind : TypeKind) (name : String) : Bool :=
  match kind with
  | .nodeType => (tier.nodeType? name).isSome
  | .relationType => (tier.relationType? name).isSome
  | .attributeType => (tier.attributeType? name).isSome

end SchemaTier

/-- The arcs from the folded names of node types to those of their parents. -/
def parentArcs (types : List NodeType) : List (String × List String) :=
  types.map fun d => (Text.fold d.name, d.parents.map Text.fold)

/-- Whether one of `names` is `goal` or leads to it through parents. The parents of a type are followed in the order in
which it lists them; whether the goal is met does not depend on that order. -/
def leadsTo (types : List NodeType) (goal : String) (names : List String) : Bool :=
  (search (· == Text.fold goal) (parentArcs types) (names.map Text.fold)).isSome

structure Schema where
  shared : SchemaTier
  own : SchemaTier := {}
  deriving DecidableEq

namespace Schema

variable (schema : Schema)

def findNodeType (name : String) : Option (Tier × NodeType) :=
  ((schema.shared.nodeType? name).map (Tier.global, ·)).or
    ((schema.own.nodeType? name).map (Tier.user, ·))

def findRelationType (name : String) : Option (Tier × RelationType) :=
  ((schema.shared.relationType? name).map (Tier.global, ·)).or
    ((schema.own.relationType? name).map (Tier.user, ·))

def findAttributeType (name : String) : Option (Tier × AttributeType) :=
  ((schema.shared.attributeType? name).map (Tier.global, ·)).or
    ((schema.own.attributeType? name).map (Tier.user, ·))

def nodeType? (name : String) : Option NodeType := (schema.findNodeType name).map (·.2)

def relationType? (name : String) : Option RelationType := (schema.findRelationType name).map (·.2)

def attributeType? (name : String) : Option AttributeType := (schema.findAttributeType name).map (·.2)

def tierOf? (kind : TypeKind) (name : String) : Option Tier :=
  match kind with
  | .nodeType => (schema.findNodeType name).map (·.1)
  | .relationType => (schema.findRelationType name).map (·.1)
  | .attributeType => (schema.findAttributeType name).map (·.1)

def nodeTypes : List (Tier × NodeType) :=
  schema.shared.nodeTypes.values.map (Tier.global, ·) ++ schema.own.nodeTypes.values.map (Tier.user, ·)

def relationTypes : List (Tier × RelationType) :=
  schema.shared.relationTypes.values.map (Tier.global, ·) ++
    schema.own.relationTypes.values.map (Tier.user, ·)

def attributeTypes : List (Tier × AttributeType) :=
  schema.shared.attributeTypes.values.map (Tier.global, ·) ++
    schema.own.attributeTypes.values.map (Tier.user, ·)

/-- Whether `sub` is `super` or has it among its ancestors. -/
def isSubtype (sub super : String) : Bool :=
  Text.fold sub == Text.fold super ||
    leadsTo (schema.nodeTypes.map (·.2)) super (((schema.nodeType? sub).map (·.parents)).getD [])

/-- Whether a node type fits a domain or a range. -/
def satisfies (nodeType : String) (allowed : List String) : Bool :=
  allowed.isEmpty || allowed.any fun a => schema.isSubtype nodeType a

end Schema

end Morphology
