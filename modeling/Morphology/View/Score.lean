import Morphology.View.Basic

/-! Points for a view: how much of each kind it holds, times the weight of the kind. Sums stop at the greatest
number of 64 bits. -/

namespace Morphology

structure Weights where
  node : Nat := 1
  relation : Nat := 2
  attr : Nat := 2
  qualified : Nat := 1
  quantified : Nat := 1
  modality : Nat := 1
  unit : Nat := 1
  adverb : Nat := 1
  /-- For a node with a role other than the individual. -/
  advanced : Nat := 3
  reused : Nat := 2
  transition : Nat := 3
  deriving DecidableEq, Repr

structure Counts where
  nodes : Nat := 0
  relations : Nat := 0
  attributes : Nat := 0
  qualified : Nat := 0
  quantified : Nat := 0
  modality : Nat := 0
  units : Nat := 0
  adverbs : Nat := 0
  advancedNodes : Nat := 0
  reusedNodes : Nat := 0
  transitions : Nat := 0
  deriving DecidableEq, Repr

structure Score where
  counts : Counts
  total : Nat
  deriving DecidableEq, Repr

def View.counts (view : View) : Counts where
  nodes := view.nodes.length
  relations := view.relations.length
  attributes := view.attributes.length
  qualified := view.relations.countP (·.modifiers.qualifier.isSome)
  quantified :=
    (view.relations.countP fun r =>
      r.modifiers.subjectQuantifier.isSome || r.modifiers.objectQuantifier.isSome) +
      view.attributes.countP (·.modifiers.quantifier.isSome)
  modality :=
    view.relations.countP (·.modifiers.modality.isSome) +
      view.attributes.countP (·.modifiers.modality.isSome)
  units := view.attributes.countP (·.modifiers.unit.isSome)
  adverbs :=
    view.relations.countP (·.modifiers.adverb.isSome) +
      view.attributes.countP (·.modifiers.adverb.isSome)
  advancedNodes := view.nodes.countP (·.node.role.isAdvanced)
  reusedNodes := view.nodes.countP (·.reused)
  transitions := view.transitions.length

namespace Counts

def greatest : Nat := 0xffffffffffffffff

def saturate (n : Nat) : Nat := min n greatest

def weighted (c : Counts) (w : Weights) : List (Nat × Nat) :=
  [(c.nodes, w.node), (c.relations, w.relation), (c.attributes, w.attr), (c.qualified, w.qualified),
    (c.quantified, w.quantified), (c.modality, w.modality), (c.units, w.unit), (c.adverbs, w.adverb),
    (c.advancedNodes, w.advanced), (c.reusedNodes, w.reused), (c.transitions, w.transition)]

def weigh (c : Counts) (w : Weights) : Nat :=
  (c.weighted w).foldl (fun total p => saturate (total + saturate (p.1 * p.2))) 0

def rows (c : Counts) : List (String × Nat) :=
  [("nodes", c.nodes), ("relations", c.relations), ("attributes", c.attributes),
    ("qualified", c.qualified), ("quantified", c.quantified), ("modality", c.modality),
    ("units", c.units), ("adverbs", c.adverbs), ("advanced nodes", c.advancedNodes),
    ("reused nodes", c.reusedNodes), ("transitions", c.transitions)]

end Counts

def View.score (view : View) (weights : Weights) : Score :=
  ⟨view.counts, view.counts.weigh weights⟩

namespace Score

/-- The label in a column of sixteen characters. -/
def row (label : String) (n : Nat) : String :=
  String.ofList (label.toList ++ List.replicate (16 - label.length) ' ') ++ Text.ofNat n

/-- One line for each kind that occurs, and the total. -/
def text (score : Score) : String :=
  Text.concat ((score.counts.rows.filter (0 < ·.2)).map fun r => row r.1 r.2 ++ "\n") ++
    row "score" score.total

end Score

end Morphology
