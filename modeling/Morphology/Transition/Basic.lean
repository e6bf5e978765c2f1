import Morphology.Graph.Basic
import Morphology.Transition.Cycle

/-! Making, changing and deleting transitions. Each state named is a morph of its node, and where cycles are
rejected no transition closes one. -/

namespace Morphology

inductive TransitionError where
  | reference (e : ReferenceError)
  | duplicate (e : DuplicateError)
  | emptyName
  | cycle (id : TransitionId) (through : StatePair)
  deriving DecidableEq, Repr

def TransitionError.message : TransitionError → String
  | reference e => e.message
  | duplicate e => e.message
  | emptyName => "transition name must not be empty"
  | cycle id through =>
    "transition " ++ id.text ++ " would create a cycle through " ++ through.text

structure TransitionDraft where
  name : String
  adjective : Option String := none
  tense : Tense := .present
  inputs : List StatePair := []
  outputs : List StatePair := []
  description : String := ""
  deriving DecidableEq, Repr

/-- New values for the fields that do not make up the id. -/
structure TransitionUpdate where
  tense : Option Tense := none
  description : Option String := none
  inputs : Option (List StatePair) := none
  outputs : Option (List StatePair) := none
  deriving DecidableEq, Repr

def TransitionUpdate.apply (update : TransitionUpdate) (t : Transition) : Transition :=
  { t with
    tense := update.tense.getD t.tense
    description := update.description.getD t.description
    inputs := update.inputs.getD t.inputs
    outputs := update.outputs.getD t.outputs }

namespace Graph

variable (g : Graph)

def checkState (pair : StatePair) : Except ReferenceError Unit :=
  match g.nodes.get? pair.node with
  | none => .error (.notFound .node pair.node.text)
  | some node =>
    if node.hasMorph pair.morph then .ok ()
    else if g.morphs.contains pair.morph then .error (.dangling pair.node.text pair.morph.text)
    else .error (.notFound .morph pair.morph.text)

def checkStates : List StatePair → Except ReferenceError Unit
  | [] => .ok ()
  | pair :: pairs => do
    g.checkState pair
    checkStates pairs

def checkTransition (rejectCycles : Bool) (t : Transition) : Except TransitionError Unit :=
  match g.checkStates t.pairs with
  | .error e => .error (.reference e)
  | .ok () =>
    match if rejectCycles then findCycle (g.transitions.values.filter (·.id ≠ t.id)) t else none with
    | some state => .error (.cycle t.id state)
    | none => .ok ()

def putTransition (t : Transition) : Graph :=
  { g with transitions := g.transitions.insert t.id t }

def createTransition (rejectCycles : Bool) (draft : TransitionDraft) :
    Except TransitionError (TransitionId × Graph) := do
  let name := Text.collapse draft.name
  if name.isEmpty then throw .emptyName
  let adjective := Text.collapse? draft.adjective
  let id := TransitionId.ofName name adjective
  if g.transitions.contains id then throw (.duplicate ⟨id.text, .graph⟩)
  let t : Transition :=
    ⟨id, name, adjective, draft.tense, draft.inputs, draft.outputs, draft.description⟩
  g.checkTransition rejectCycles t
  return (id, g.putTransition t)

def updateTransition (rejectCycles : Bool) (id : TransitionId) (update : TransitionUpdate) :
    Except TransitionError Graph := do
  match g.transitions.get? id with
  | none => throw (.reference (.notFound .transition id.text))
  | some t =>
    let t := update.apply t
    g.checkTransition rejectCycles t
    return g.putTransition t

def deleteTransition (id : TransitionId) : Except TransitionError (Transition × Graph) :=
  match g.transitions.get? id with
  | none => .error (.reference (.notFound .transition id.text))
  | some t => .ok (t, { g with transitions := g.transitions.erase id })

end Graph

end Morphology
