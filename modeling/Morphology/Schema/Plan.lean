import Morphology.Schema.Edit

/-! The shared tier as it is configured: lists of definitions, with the data types still in words. Building
puts the definitions into a tier and then checks what they mention. -/

namespace Morphology

structure AttributePlan where
  name : String
  description : String := ""
  dataType : String := "string"
  unit : Option String := none
  allowedValues : List String := []
  deriving DecidableEq, Repr

structure SchemaPlan where
  nodeTypes : List NodeType := []
  relationTypes : List RelationType := []
  attributeTypes : List AttributePlan := []
  deriving DecidableEq, Repr

inductive PlanError where
  | schema (e : SchemaError)
  | badDataType (attributeName dataType : String)
  deriving DecidableEq, Repr

def AttributePlan.resolve (p : AttributePlan) : Except PlanError AttributeType :=
  match DataType.ofName p.dataType with
  | .error key => .error (.badDataType p.name key)
  | .ok dataType =>
    let d : AttributeType := ⟨p.name, p.description, dataType, p.unit, p.allowedValues⟩
    match d.check with
    | .error e => .error (.schema e)
    | .ok () => .ok d

namespace SchemaTier

def addNodeTypes (tier : SchemaTier) : List NodeType → Except PlanError SchemaTier
  | [] => .ok tier
  | d :: ds =>
    if (tier.nodeType? d.name).isSome then .error (.schema (.duplicate ⟨d.name, .global⟩))
    else addNodeTypes { tier with nodeTypes := tier.nodeTypes.insert (Text.fold d.name) d } ds

def addRelationTypes (tier : SchemaTier) : List RelationType → Except PlanError SchemaTier
  | [] => .ok tier
  | d :: ds =>
    if (tier.relationType? d.name).isSome then .error (.schema (.duplicate ⟨d.name, .global⟩))
    else addRelationTypes { tier with relationTypes := tier.relationTypes.insert (Text.fold d.name) d } ds

def addAttributeTypes (tier : SchemaTier) : List AttributePlan → Except PlanError SchemaTier
  | [] => .ok tier
  | p :: ps =>
    match p.resolve with
    | .error e => .error e
    | .ok d =>
      if (tier.attributeType? d.name).isSome then .error (.schema (.duplicate ⟨d.name, .global⟩))
      else addAttributeTypes { tier with attributeTypes := tier.attributeTypes.insert (Text.fold d.name) d } ps

def unknownParent? (tier : SchemaTier) : Option String :=
  tier.nodeTypes.values.findSome? fun d => d.parents.find? fun p => (tier.nodeType? p).isNone

/-- The first type that is its own ancestor. -/
def ownAncestor? (tier : SchemaTier) : Option String :=
  (tier.nodeTypes.values.find? fun d => leadsTo tier.nodeTypes.values d.name d.parents).map (·.name)

def unknownMention? (tier : SchemaTier) : Option (String × String) :=
  tier.relationTypes.values.findSome? fun d =>
    (d.mentioned.find? fun n => (tier.nodeType? n).isNone).map fun n => (d.name, n)

def checkMentions (tier : SchemaTier) : Except SchemaError Unit :=
  match tier.unknownParent?, tier.ownAncestor?, tier.unknownMention? with
  | some name, _, _ => .error (.unknownParent name)
  | none, some name, _ => .error (.inheritanceCycle name)
  | none, none, some (relation, name) => .error (.unknownNodeType relation name)
  | none, none, none => .ok ()

end SchemaTier

def SchemaPlan.build (plan : SchemaPlan) : Except PlanError SchemaTier := do
  let tier ← SchemaTier.addNodeTypes {} plan.nodeTypes
  let tier ← tier.addRelationTypes plan.relationTypes
  let tier ← tier.addAttributeTypes plan.attributeTypes
  match tier.checkMentions with
  | .error e => throw (.schema e)
  | .ok () => return tier

end Morphology
