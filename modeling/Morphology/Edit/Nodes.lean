import Morphology.Edit.References

/-! Updating nodes, and deleting them with everything that hangs off them. -/

namespace Morphology

/-- New values for fields of a node; an inner `none` clears an optional field. -/
structure NodeUpdate where
  role : Option Role := none
  quantifier : Option (Option String) := none
  nodeType : Option (Option String) := none
  deriving DecidableEq, Repr

def NodeUpdate.apply (update : NodeUpdate) (node : Node) : Node :=
  { node with
    role := update.role.getD node.role
    quantifier := update.quantifier.getD node.quantifier
    nodeType := update.nodeType.getD node.nodeType }

namespace Edit

def updateNode (node : NodeId) (update : NodeUpdate) : Edit Unit := do
  let _ ← demand (·.requireNode node)
  modify fun g => g.modifyNode node fun n => (update.apply n).bump

/-- Empties the morphs named; the edges that went with their last references are returned. -/
def purgeMorphs : List MorphId → Edit (List EdgeRef)
  | [] => return []
  | morph :: morphs => do
    let g ← get
    let gone ← purgeAll morph (((g.morphs.get? morph).map (·.refs)).getD [])
    let rest ← purgeMorphs morphs
    return gone ++ rest

/-- The edges at a node: relations from it and to it, and its attributes. -/
def edgesAt (g : Graph) (node : NodeId) : List EdgeRef :=
  (g.outgoing.items node ++ g.incoming.items node).map .relation ++
    (g.attributes.values.filter (·.owner = node)).map fun a => .attr a.id

/-- Removes those of the edges that are still there. -/
def removeEdges : List EdgeRef → Edit (List EdgeRef)
  | [] => return []
  | edge :: edges => do
    let g ← get
    if g.hasEdge edge then
      let losers ← change (·.removeEdge edge)
      touchOwners losers
      let rest ← removeEdges edges
      return edge :: rest
    else removeEdges edges

def deleteNode (node : NodeId) : Edit Deleted := do
  let n ← demand (·.requireNode node)
  requireFreeNode node
  let purged ← purgeMorphs n.morphs
  let g ← get
  let removed ← removeEdges (edgesAt g node)
  let _ ← change (·.removeNode node)
  return { nodes := [node], morphs := n.morphs, edges := purged ++ removed }

end Edit

end Morphology
