import Morphology.Graph.Basic

/-! The composed view: every node in one chosen state, and the edges that hold in the chosen states. -/

namespace Morphology

structure NodeView where
  node : Node
  morphs : List Morph
  /-- The morph the view takes the node in. -/
  chosen : MorphId
  /-- Whether the node was made in another namespace. -/
  reused : Bool
  deriving DecidableEq, Repr

structure View where
  space : Namespace
  nodes : List NodeView
  /-- In the order of their ids, as the attributes. -/
  relations : List Relation
  attributes : List Attribute
  transitions : List Transition
  deriving DecidableEq, Repr

namespace Graph

/-- The choice in `active` if it is a morph of the node, and else the node's own active morph. -/
def chosenMorph (active : Table NodeId MorphId) (node : Node) : MorphId :=
  ((active.get? node.id).filter node.hasMorph).getD node.activeMorph

def chosenMorphs (g : Graph) (active : Table NodeId MorphId) : List Morph :=
  g.nodes.values.filterMap fun node => g.morphs.get? (chosenMorph active node)

def nodeView (g : Graph) (active : Table NodeId MorphId) (node : Node) : NodeView :=
  ⟨node, g.morphsOf node, chosenMorph active node, !g.space.owns node.id⟩

def compose (g : Graph) (active : Table NodeId MorphId) : View :=
  let morphs := g.chosenMorphs active
  { space := g.space
    nodes := g.nodes.values.map (g.nodeView active)
    relations := (KeySet.ofList (morphs.flatMap (·.relations))).keys.filterMap g.relations.get?
    attributes := (KeySet.ofList (morphs.flatMap (·.attributes))).keys.filterMap g.attributes.get?
    transitions := g.transitions.values }

end Graph

end Morphology
