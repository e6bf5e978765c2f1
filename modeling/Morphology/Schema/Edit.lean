import Morphology.Schema.Basic

/-! Editing the own tier of a schema. A name is free in both tiers before it is taken, and what a definition
mentions is there. -/

namespace Morphology

/-- The allowed values of an attribute type are values of its data type. -/
def AttributeType.check (d : AttributeType) : Except SchemaError Unit :=
  match d.allowedValues.find? fun v => (d.dataType.coerce v).isNone with
  | some v => .error (.badAllowedValue d.name v d.dataType)
  | none => .ok ()

namespace Schema

variable (schema : Schema)

/-- The name to be stored for a new definition. -/
def checkNewName (kind : TypeKind) (name : String) : Except SchemaError String :=
  let name := Text.collapse name
  if name.isEmpty then .error (.emptyName kind)
  else if schema.shared.contains kind name then .error (.duplicate ⟨name, .global⟩)
  else if schema.own.contains kind name then .error (.duplicate ⟨name, .user⟩)
  else .ok name

def checkEditable (kind : TypeKind) (name : String) : Except SchemaError Unit :=
  if schema.shared.contains kind name then .error (.readOnly kind name)
  else if schema.own.contains kind name then .ok ()
  else .error (.notFound kind name)

/-- The first parent that is the type itself, or is no type, is reported. -/
def checkParents (d : NodeType) : List String → Except SchemaError Unit
  | [] => .ok ()
  | parent :: parents =>
    if Text.fold parent = Text.fold d.name then .error (.inheritanceCycle d.name)
    else if (schema.nodeType? parent).isNone then .error (.unknownParent parent)
    else checkParents d parents

def checkMentioned (d : RelationType) : Except SchemaError Unit :=
  match d.mentioned.find? fun name => (schema.nodeType? name).isNone with
  | some name => .error (.unknownNodeType d.name name)
  | none => .ok ()

def putNodeType (d : NodeType) : Schema :=
  { schema with own.nodeTypes := schema.own.nodeTypes.insert (Text.fold d.name) d }

def putRelationType (d : RelationType) : Schema :=
  { schema with own.relationTypes := schema.own.relationTypes.insert (Text.fold d.name) d }

def putAttributeType (d : AttributeType) : Schema :=
  { schema with own.attributeTypes := schema.own.attributeTypes.insert (Text.fold d.name) d }

def createNodeType (d : NodeType) : Except SchemaError Schema := do
  let name ← schema.checkNewName .nodeType d.name
  let d := { d with name := name }
  schema.checkParents d d.parents
  return schema.putNodeType d

/-- Refused where a parent is a subtype of the type itself. -/
def updateNodeType (d : NodeType) : Except SchemaError Schema := do
  let d := { d with name := Text.collapse d.name }
  schema.checkEditable .nodeType d.name
  schema.checkParents d d.parents
  if d.parents.any fun parent => schema.isSubtype parent d.name then
    throw (.inheritanceCycle d.name)
  return schema.putNodeType d

/-- How many definitions name a node type as a parent, in a domain or in a range. -/
def nodeTypeUses (name : String) : Nat :=
  (schema.nodeTypes.filter fun d => d.2.parents.any fun p => Text.fold p == Text.fold name).length +
    (schema.relationTypes.filter fun d => d.2.mentioned.any fun n => Text.fold n == Text.fold name).length

def deleteNodeType (name : String) : Except SchemaError (NodeType × Schema) := do
  schema.checkEditable .nodeType name
  let uses := schema.nodeTypeUses name
  if 0 < uses then throw (.inUse .nodeType name uses)
  match schema.own.nodeType? name with
  | none => throw (.notFound .nodeType name)
  | some d =>
    return (d, { schema with own.nodeTypes := schema.own.nodeTypes.erase (Text.fold name) })

def createRelationType (d : RelationType) : Except SchemaError Schema := do
  let name ← schema.checkNewName .relationType d.name
  let d := { d with name := name }
  schema.checkMentioned d
  return schema.putRelationType d

def updateRelationType (d : RelationType) : Except SchemaError Schema := do
  let d := { d with name := Text.collapse d.name }
  schema.checkEditable .relationType d.name
  schema.checkMentioned d
  return schema.putRelationType d

def deleteRelationType (name : String) : Except SchemaError (RelationType × Schema) := do
  schema.checkEditable .relationType name
  match schema.own.relationType? name with
  | none => throw (.notFound .relationType name)
  | some d =>
    return (d, { schema with own.relationTypes := schema.own.relationTypes.erase (Text.fold name) })

def createAttributeType (d : AttributeType) : Except SchemaError Schema := do
  let name ← schema.checkNewName .attributeType d.name
  let d := { d with name := name }
  d.check
  return schema.putAttributeType d

def updateAttributeType (d : AttributeType) : Except SchemaError Schema := do
  let d := { d with name := Text.collapse d.name }
  schema.checkEditable .attributeType d.name
  d.check
  return schema.putAttributeType d

def deleteAttributeType (name : String) : Except SchemaError (AttributeType × Schema) := do
  schema.checkEditable .attributeType name
  match schema.own.attributeType? name with
  | none => throw (.notFound .attributeType name)
  | some d =>
    return (d, { schema with own.attributeTypes := schema.own.attributeTypes.erase (Text.fold name) })

end Schema

end Morphology
