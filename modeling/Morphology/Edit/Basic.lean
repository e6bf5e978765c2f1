import Morphology.Graph.Store

/-! Edits: changes of a graph that may be refused on the way. An edit that is refused keeps whatever it has
done, so each makes its checks before its first change. -/

namespace Morphology

abbrev Edit (α : Type) : Type := EStateM EditError Graph α

structure Deleted where
  nodes : List NodeId := []
  morphs : List MorphId := []
  edges : List EdgeRef := []
  deriving DecidableEq, Repr

structure Upserted where
  edge : EdgeRef
  /-- Whether there was no edge with that id. -/
  created : Bool
  /-- Whether the morph did not refer to the edge. -/
  linked : Bool
  deriving DecidableEq, Repr

namespace Edit

variable {α : Type}

def refuse (e : ReferenceError) : Edit α := throw (.reference e)

def change (step : Graph → Except ReferenceError (α × Graph)) : Edit α := fun g =>
  match step g with
  | .ok (a, g) => .ok a g
  | .error e => .error (.reference e) g

def demand (question : Graph → Except ReferenceError α) : Edit α := fun g =>
  match question g with
  | .ok a => .ok a g
  | .error e => .error (.reference e) g

def touchNode (node : NodeId) : Edit Unit :=
  modify fun g => g.modifyNode node Node.bump

def touchOwner (morph : MorphId) : Edit Unit :=
  modify fun g =>
    match g.morphs.get? morph with
    | some m => g.modifyNode m.owner Node.bump
    | none => g

def touchOwners : List MorphId → Edit Unit
  | [] => pure ()
  | morph :: morphs => do
    touchOwner morph
    touchOwners morphs

/-- The morph, which must refer to the edge. -/
def requireReference (morph : MorphId) (edge : EdgeRef) : Edit Morph := do
  demand (·.requireEdge edge)
  let m ← demand (·.requireMorph morph)
  if m.contains edge then return m
  else refuse (.notFound edge.kind (edge.text ++ " in " ++ morph.text))

/-- A morph refers to edges of its own node only. -/
def requireSameOwner (m : Morph) (edge : EdgeRef) : Edit Unit := do
  let g ← get
  match g.edgeOwner edge with
  | some owner => if owner = m.owner then pure () else refuse (.dangling m.id.text edge.text)
  | none => refuse (.notFound edge.kind edge.text)

/-- Refused while a transition names the morph. -/
def requireFreeMorph (morph : MorphId) : Edit Unit := do
  let g ← get
  match g.transitions.values.find? (·.involvesMorph morph) with
  | some t => refuse (.dangling t.id.text morph.text)
  | none => pure ()

/-- Refused while a transition names the node. -/
def requireFreeNode (node : NodeId) : Edit Unit := do
  let g ← get
  match g.transitions.values.find? (·.involvesNode node) with
  | some t => refuse (.dangling t.id.text node.text)
  | none => pure ()

end Edit

end Morphology
