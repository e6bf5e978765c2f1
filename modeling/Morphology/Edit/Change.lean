import Morphology.Edit.Edges
import Morphology.Edit.Morphs
import Morphology.Edit.Nodes

/-! The changes that can be asked of a graph, with or without a guard. A guard names a node and the version it
is expected to have; a change written to that node is refused if the version is another. -/

namespace Morphology

inductive Change where
  | addMorph (node : NodeId) (name : Option String) (seed : Option MorphId)
  | switchActive (node : NodeId) (morph : MorphId)
  | deleteMorph (morph : MorphId)
  | copyRef (edge : EdgeRef) (source target : MorphId)
  | moveRef (edge : EdgeRef) (source target : MorphId)
  | unlistRef (edge : EdgeRef) (morph : MorphId)
  | deleteEdge (edge : EdgeRef)
  | upsertRelation (morph : MorphId) (relation : Relation)
  | upsertAttribute (morph : MorphId) (a : Attribute)
  | updateRelation (id : RelationId) (modifiers : RelationModifiers)
  | updateAttribute (id : AttributeId) (value : String) (typed : Option Value)
      (modifiers : AttributeModifiers)
  | updateNode (node : NodeId) (update : NodeUpdate)
  | deleteNode (node : NodeId)
  deriving DecidableEq, Repr

inductive Outcome where
  | done
  | morph (id : MorphId)
  | added (added : Bool)
  | deleted (d : Deleted)
  | upserted (u : Upserted)
  deriving DecidableEq, Repr

structure Guard where
  node : NodeId
  version : Nat
  deriving DecidableEq, Repr

namespace Guard

variable (guard : Option Guard)

def checkNode (node : NodeId) : Edit Unit :=
  match guard with
  | none => pure ()
  | some guard =>
    if guard.node = node then do
      let n ← Edit.demand (·.requireNode node)
      if n.version = guard.version then pure ()
      else throw (.conflict ⟨node, guard.version, n.version⟩)
    else pure ()

def checkMorph (morph : MorphId) : Edit Unit := do
  let m ← Edit.demand (·.requireMorph morph)
  checkNode guard m.owner

def checkEdge (edge : EdgeRef) : Edit Unit := do
  Edit.demand (·.requireEdge edge)
  let g ← get
  match g.edgeOwner edge with
  | some owner => checkNode guard owner
  | none => pure ()

/-- The check made before a change: what the change is addressed to exists, and its node has the expected
version. Choosing the active morph is no change of the node. -/
def check : Change → Edit Unit
  | .addMorph node _ _ => checkNode guard node
  | .switchActive _ _ => pure ()
  | .deleteMorph morph => checkMorph guard morph
  | .copyRef _ _ target => checkMorph guard target
  | .moveRef _ _ target => checkMorph guard target
  | .unlistRef _ morph => checkMorph guard morph
  | .deleteEdge edge => checkEdge guard edge
  | .upsertRelation _ relation => checkNode guard relation.source
  | .upsertAttribute _ a => checkNode guard a.owner
  | .updateRelation id _ => checkEdge guard (.relation id)
  | .updateAttribute id _ _ _ => checkEdge guard (.attr id)
  | .updateNode node _ => checkNode guard node
  | .deleteNode node => checkNode guard node

end Guard

namespace Change

def perform : Change → Edit Outcome
  | addMorph node name seed => .morph <$> Edit.addMorph node name seed
  | switchActive node morph => do
    Edit.switchActive node morph
    return .done
  | deleteMorph morph => .deleted <$> Edit.deleteMorph morph
  | copyRef edge source target => .added <$> Edit.copyRef edge source target
  | moveRef edge source target => do
    Edit.moveRef edge source target
    return .done
  | unlistRef edge morph => .deleted <$> Edit.unlistRef edge morph
  | deleteEdge edge => .deleted <$> Edit.deleteEdge edge
  | upsertRelation morph relation => .upserted <$> Edit.upsertRelation morph relation
  | upsertAttribute morph a => .upserted <$> Edit.upsertAttribute morph a
  | updateRelation id modifiers => do
    Edit.updateRelation id modifiers
    return .done
  | updateAttribute id value typed modifiers => do
    Edit.updateAttribute id value typed modifiers
    return .done
  | updateNode node update => do
    Edit.updateNode node update
    return .done
  | deleteNode node => .deleted <$> Edit.deleteNode node

def run (guard : Option Guard) (change : Change) : Edit Outcome := do
  Guard.check guard change
  change.perform

end Change

end Morphology
