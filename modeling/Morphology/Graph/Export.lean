import Morphology.Document.Basic
import Morphology.Graph.Basic

/-! The graph as a document: a block for each node and a fence for each morph, but for a basic morph without
edges. -/

namespace Morphology.Graph

variable (g : Graph)

/-- A target is named by its present name and qualifier. -/
def relationStatement (r : Relation) : Statement :=
  let target := g.nodes.get? r.target
  .relation
    { subjectQuantifier := r.modifiers.subjectQuantifier
      adverb := r.modifiers.adverb
      name := r.name
      targetQuantifier := r.modifiers.objectQuantifier
      targetQualifier := (target.bind (·.qualifier)).or r.modifiers.qualifier
      targetName := (target.map (·.name)).getD r.target.text
      modality := r.modifiers.modality }

def attributeStatement (a : Attribute) : Statement :=
  .attr ⟨a.name, a.modifiers.adverb, a.value, a.modifiers.unit, a.modifiers.modality⟩

def statementsOf (morph : Morph) : List Statement :=
  (morph.relations.filterMap g.relations.get?).map g.relationStatement ++
    (morph.attributes.filterMap g.attributes.get?).map attributeStatement

/-- A morph is labelled by its name; one without a name by its place, but for the basic morph. -/
def fenceLabel (node : Node) (morph : Morph) (place : Nat) : Option String :=
  match morph.name with
  | some name => some name
  | none => if node.basicMorph = morph.id then none else some ("morph " ++ Text.ofNat place)

def morphFence (node : Node) (morph : Morph) (place : Nat) : Fence :=
  ⟨fenceLabel node morph place, 0, (g.statementsOf morph).map (.statement 0), true⟩

def nodeBlock (node : Node) : Block :=
  let shown := (g.morphsOf node).zipIdx.filter fun m => !(node.basicMorph == m.1.id && m.1.isEmpty)
  ⟨node.name, node.qualifier, 0, shown.map fun m => .fence (g.morphFence node m.1 m.2), []⟩

def toDocument : Document := ⟨"", g.nodes.values.map g.nodeBlock⟩

end Morphology.Graph
