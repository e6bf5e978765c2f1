import Morphology.Edit.References
import Morphology.Schema.Change
import Morphology.Session.Basic

/-! Deleting types while a graph uses them. A node type stays as long as nodes are typed with it; for the types
of edges the policy decides. -/

namespace Morphology

def Graph.edgesOfType (g : Graph) (kind : TypeKind) (name : String) : List EdgeRef :=
  match kind with
  | .nodeType => []
  | .relationType => (g.relationsOfType name).map .relation
  | .attributeType => (g.attributesOfType name).map .attr

def Graph.nodesOfType (g : Graph) (name : String) : List Node :=
  g.nodes.values.filter fun n => n.nodeType.map Text.fold == some (Text.fold name)

namespace Session

/-- How many records keep a type from being deleted. -/
def blockers (s : Session) (kind : TypeKind) (name : String) : Nat :=
  match kind, s.settings.deletePolicy with
  | .nodeType, _ => (s.graph.nodesOfType name).length
  | _, .reject => (s.graph.edgesOfType kind name).length
  | _, .cascade => 0

def checkDeletable (s : Session) (kind : TypeKind) (name : String) : Except SchemaError Unit :=
  match s.schema.tierOf? kind name with
  | none => .error (.notFound kind name)
  | some .user =>
    if 0 < s.blockers kind name then .error (.inUse kind name (s.blockers kind name)) else .ok ()
  | some _ => .error (.readOnly kind name)

end Session

namespace Action

def deleteType (kind : TypeKind) (name : String) : Action Definition := do
  let s ← get
  match s.checkDeletable kind name with
  | .error e => throw (.schema e)
  | .ok () =>
    let edges := s.graph.edgesOfType kind name
    let d ← editSchema fun schema => schema.delete kind name
    edit (Edit.deleteEdges edges)
    return d

def changeSchema : SchemaChange → Action (Option Definition)
  | .delete kind name => some <$> deleteType kind name
  | c => editSchema fun schema => schema.change c

end Action

end Morphology
