import Morphology.Schema.Edit

/-! The changes that can be asked of a schema, for definitions of any kind. -/

namespace Morphology

inductive Definition where
  | nodeType (d : NodeType)
  | relationType (d : RelationType)
  | attributeType (d : AttributeType)
  deriving DecidableEq, Repr

namespace Definition

def kind : Definition → TypeKind
  | nodeType _ => .nodeType
  | relationType _ => .relationType
  | attributeType _ => .attributeType

def name : Definition → String
  | nodeType d => d.name
  | relationType d => d.name
  | attributeType d => d.name

end Definition

inductive SchemaChange where
  | create (d : Definition)
  | update (d : Definition)
  | delete (kind : TypeKind) (name : String)
  deriving DecidableEq, Repr

namespace Schema

variable (schema : Schema)

def create : Definition → Except SchemaError Schema
  | .nodeType d => schema.createNodeType d
  | .relationType d => schema.createRelationType d
  | .attributeType d => schema.createAttributeType d

def update : Definition → Except SchemaError Schema
  | .nodeType d => schema.updateNodeType d
  | .relationType d => schema.updateRelationType d
  | .attributeType d => schema.updateAttributeType d

def delete (kind : TypeKind) (name : String) : Except SchemaError (Definition × Schema) :=
  match kind with
  | .nodeType => (schema.deleteNodeType name).map fun p => (.nodeType p.1, p.2)
  | .relationType => (schema.deleteRelationType name).map fun p => (.relationType p.1, p.2)
  | .attributeType => (schema.deleteAttributeType name).map fun p => (.attributeType p.1, p.2)

/-- The changed schema, and the definition a deletion took out of it. -/
def change : SchemaChange → Except SchemaError (Option Definition × Schema)
  | .create d => (schema.create d).map (none, ·)
  | .update d => (schema.update d).map (none, ·)
  | .delete kind name => (schema.delete kind name).map fun p => (some p.1, p.2)

end Schema

end Morphology
