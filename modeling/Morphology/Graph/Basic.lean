import Morphology.Graph.Naming
import Morphology.Refusal

/-! The graph: tables of nodes, morphs, edges and transitions, and the indexes kept beside them. The functions
here read it. -/

namespace Morphology

structure Graph where
  nodes : Table NodeId Node := ∅
  morphs : Table MorphId Morph := ∅
  relations : Table RelationId Relation := ∅
  attributes : Table AttributeId Attribute := ∅
  transitions : Table TransitionId Transition := ∅
  names : NameBook
  referrers : Index EdgeRef MorphId := ∅
  outgoing : Index NodeId RelationId := ∅
  incoming : Index NodeId RelationId := ∅
  /-- The relations of a type, by its folded name. -/
  relationsByType : Index String RelationId := ∅
  attributesByType : Index String AttributeId := ∅
  deriving DecidableEq

namespace Graph

def empty (space : Namespace) : Graph := { names := { space := space } }

variable (g : Graph)

def space : Namespace := g.names.space

def lookup (name : String) (qualifier : Option String) : Option Node :=
  (g.names.lookup (Text.collapse name) (Text.collapse? qualifier)).bind g.nodes.get?

/-- The nodes whose id or display name contains the text, in any case. -/
def search (text : String) : List Node :=
  let needle := Text.fold text
  g.nodes.values.filter fun node =>
    Text.contains needle (Text.lowercase node.id.text) ||
      Text.contains needle (Text.fold node.displayName)

def requireNode (id : NodeId) : Except ReferenceError Node :=
  match g.nodes.get? id with
  | some node => .ok node
  | none => .error (.notFound .node id.text)

def requireMorph (id : MorphId) : Except ReferenceError Morph :=
  match g.morphs.get? id with
  | some morph => .ok morph
  | none => .error (.notFound .morph id.text)

def hasEdge : EdgeRef → Bool
  | .relation id => g.relations.contains id
  | .attr id => g.attributes.contains id

def requireEdge (edge : EdgeRef) : Except ReferenceError Unit :=
  if g.hasEdge edge then .ok () else .error (.notFound edge.kind edge.text)

def morphsOf (node : Node) : List Morph := node.morphs.filterMap g.morphs.get?

/-- The morph of that name, in any spelling; without a name, the basic morph. -/
def morphNamed (node : NodeId) (name : Option String) : Option Morph :=
  match g.nodes.get? node with
  | none => none
  | some node =>
    match name with
    | none => g.morphs.get? node.basicMorph
    | some name =>
      (g.morphsOf node).find? fun m => m.name.map Text.fold == some (Text.fold name)

/-- The node an edge belongs to: the source of a relation, the owner of an attribute. -/
def edgeOwner : EdgeRef → Option NodeId
  | .relation id => (g.relations.get? id).map (·.source)
  | .attr id => (g.attributes.get? id).map (·.owner)

def edgeName? : EdgeRef → Option String
  | .relation id => (g.relations.get? id).map (·.name)
  | .attr id => (g.attributes.get? id).map (·.name)

def relationsOfType (name : String) : List RelationId := g.relationsByType.items (Text.fold name)

def attributesOfType (name : String) : List AttributeId := g.attributesByType.items (Text.fold name)

def morphCount : Nat := (g.nodes.values.flatMap (·.morphs)).length

end Graph

end Morphology
