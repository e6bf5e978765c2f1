import Morphology.Graph.Basic

/-! The elementary changes of the graph. Each keeps the tables and the indexes in step and leaves policy to its
callers; one that is refused changes nothing. -/

namespace Morphology.Graph

variable (g : Graph)

def insertNode (node : Node) : Graph :=
  { g with
    morphs := g.morphs.insert node.basicMorph (Morph.new node.basicMorph node.id none)
    nodes := g.nodes.insert node.id node }

/-- The node of that name, made if there is none. -/
def resolve (name : String) (qualifier : Option String) : NodeId × Graph :=
  let name := Text.collapse name
  let qualifier := Text.collapse? qualifier
  match g.names.lookup name qualifier with
  | some id => (id, g)
  | none =>
    let id := g.names.mint name qualifier
    let names := (g.names.register id name qualifier).2
    (id, { g with names := names }.insertNode (Node.new id name qualifier))

/-- Adds a node made elsewhere, unless it is there already. The name stands for it unless it is taken. -/
def importNode (id : NodeId) (name : String) (qualifier : Option String) : NodeId × Graph :=
  if g.nodes.contains id then (id, g)
  else
    let name := Text.collapse name
    let qualifier := Text.collapse? qualifier
    let names := (g.names.register id name qualifier).2
    (id, { g with names := names }.insertNode (Node.new id name qualifier))

def modifyNode (id : NodeId) (f : Node → Node) : Graph := { g with nodes := g.nodes.modify id f }

/-- Removes a node with its morphs, whatever refers to them. -/
def removeNode (id : NodeId) : Except ReferenceError (Node × Graph) :=
  match g.nodes.get? id with
  | none => .error (.notFound .node id.text)
  | some node =>
    .ok (node,
      { g with
        nodes := g.nodes.erase id
        morphs := node.morphs.foldl (·.erase ·) g.morphs
        names := g.names.unregister id node.name node.qualifier })

/-- Moves the name of a node from an old one to its present one. -/
def reregister (id : NodeId) (oldName : String) (oldQualifier : Option String) : Graph :=
  match g.nodes.get? id with
  | none => g
  | some node =>
    let names := g.names.unregister id oldName oldQualifier
    { g with names := (names.register id node.name node.qualifier).2 }

/-- Adds an empty morph at the end of the node's list. -/
def createMorph (node : NodeId) (name : Option String) : Except ReferenceError (MorphId × Graph) :=
  match g.nodes.get? node with
  | none => .error (.notFound .node node.text)
  | some n =>
    let id := MorphId.ofNode n.id n.nextMorph
    let n := { n with nextMorph := n.nextMorph + 1, morphs := n.morphs ++ [id] }
    .ok (id,
      { g with
        nodes := g.nodes.insert node n
        morphs := g.morphs.insert id (Morph.new id node name) })

/-- Takes a morph off its node, and off view. -/
def removeMorph (id : MorphId) : Except ReferenceError (Morph × Graph) :=
  match g.morphs.get? id with
  | none => .error (.notFound .morph id.text)
  | some morph =>
    let drop (node : Node) : Node :=
      { node with
        morphs := node.morphs.filter (· ≠ id)
        active := if node.active = some id then none else node.active }
    .ok (morph, { g with morphs := g.morphs.erase id }.modifyNode morph.owner drop)

/-- Puts a relation in place of the one with its id, which is returned. -/
def putRelation (relation : Relation) : Except ReferenceError (Option Relation × Graph) := do
  let _ ← g.requireNode relation.source
  let _ ← g.requireNode relation.target
  return (g.relations.get? relation.id,
    { g with
      outgoing := g.outgoing.add relation.source relation.id
      incoming := g.incoming.add relation.target relation.id
      relationsByType := g.relationsByType.add (Text.fold relation.name) relation.id
      relations := g.relations.insert relation.id relation })

/-- Puts an attribute in place of the one with its id, which is returned. -/
def putAttribute (a : Attribute) : Except ReferenceError (Option Attribute × Graph) := do
  let _ ← g.requireNode a.owner
  return (g.attributes.get? a.id,
    { g with
      attributesByType := g.attributesByType.add (Text.fold a.name) a.id
      attributes := g.attributes.insert a.id a })

/-- The graph without the record of an edge and its entries in the indexes of edges. -/
def eraseEdgeRecord : EdgeRef → Graph
  | .relation id =>
    match g.relations.get? id with
    | none => g
    | some r =>
      { g with
        relations := g.relations.erase id
        outgoing := g.outgoing.remove r.source id
        incoming := g.incoming.remove r.target id
        relationsByType := g.relationsByType.remove (Text.fold r.name) id }
  | .attr id =>
    match g.attributes.get? id with
    | none => g
    | some a =>
      { g with
        attributes := g.attributes.erase id
        attributesByType := g.attributesByType.remove (Text.fold a.name) id }

/-- The morphs with `edge` taken out of the lists of those named. -/
def withoutEdge (edge : EdgeRef) (morphs : Table MorphId Morph) (ids : List MorphId) : Table MorphId Morph :=
  ids.foldl (fun morphs id => morphs.modify id fun m => m.remove edge) morphs

/-- Removes an edge and every reference to it; the morphs that lost one are returned. -/
def removeEdge (edge : EdgeRef) : Except ReferenceError (List MorphId × Graph) := do
  g.requireEdge edge
  let losers := g.referrers.items edge
  let g := g.eraseEdgeRecord edge
  return (losers,
    { g with
      referrers := g.referrers.removeKey edge
      morphs := withoutEdge edge g.morphs losers })

/-- Lets a morph refer to an edge; tells whether it did not before. -/
def link (morph : MorphId) (edge : EdgeRef) : Except ReferenceError (Bool × Graph) := do
  g.requireEdge edge
  let m ← g.requireMorph morph
  if m.contains edge then return (false, g)
  else
    return (true,
      { g with
        morphs := g.morphs.insert morph (m.insert edge)
        referrers := g.referrers.add edge morph })

/-- Drops a reference and keeps the edge; the number of references left is returned. -/
def unlink (morph : MorphId) (edge : EdgeRef) : Except ReferenceError (Nat × Graph) := do
  let m ← g.requireMorph morph
  if m.contains edge then
    let referrers := g.referrers.remove edge morph
    return (referrers.count edge,
      { g with morphs := g.morphs.insert morph (m.remove edge), referrers := referrers })
  else throw (.notFound .morph (morph.text ++ " -> " ++ edge.text))

end Morphology.Graph
