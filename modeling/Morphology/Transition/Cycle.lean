import Morphology.Entity
import Morphology.Search

/-! Cycles in the graph of states, in which every transition leads from each of its inputs to each of its
outputs. -/

namespace Morphology

/-- The states that a list of transitions leads to, by the states they lead from. -/
def addArcs (arcs : Table StatePair (KeySet StatePair)) (t : Transition) :
    Table StatePair (KeySet StatePair) :=
  t.inputs.foldl
    (fun arcs input => arcs.insert input (t.outputs.foldl KeySet.add ((arcs.get? input).getD ∅))) arcs

/-- Greater states are looked at first. -/
def stateArcs (ts : List Transition) : List (StatePair × List StatePair) :=
  (ts.foldl addArcs ∅).entries.map fun arc => (arc.1, arc.2.keys.reverse)

/-- An input of the candidate that its outputs lead back to, with `existing` and its own arcs. -/
def findCycle (existing : List Transition) (candidate : Transition) : Option StatePair :=
  search (fun s => candidate.inputs.contains s) (stateArcs (existing ++ [candidate]))
    candidate.outputs.reverse

end Morphology
