import Morphology.Identity
import Morphology.Value

/-! The records of the graph. A node has an ordered list of morphs, its states; the first is the basic one. A
morph refers to relations and attributes of its node by id. A transition leads from states to states. -/

namespace Morphology

inductive Role where
  | individual
  | category
  | process
  | function
  deriving DecidableEq, Repr

namespace Role

def name : Role → String
  | individual => "individual"
  | category => "class"
  | process => "process"
  | function => "function"

def ofName (text : String) : Except String Role :=
  let key := Text.lowercaseAscii (Text.trim text)
  if key = "individual" then .ok individual
  else if key = "class" then .ok category
  else if key = "process" then .ok process
  else if key = "function" then .ok function
  else .error ("unknown node role '" ++ key ++ "'")

def isAdvanced (role : Role) : Bool :=
  role != individual

end Role

/-- A node. Its version is a counter of 64 bits and the number of its next morph one of 32, and both are idealised as
natural numbers: they agree with the counters as long as neither of these overflows. -/
structure Node where
  id : NodeId
  name : String
  qualifier : Option String
  quantifier : Option String
  role : Role
  nodeType : Option String
  /-- The basic morph first, then the others in the order of their creation. -/
  morphs : List MorphId
  /-- The morph chosen for viewing, if one was. -/
  active : Option MorphId
  /-- Grows with every change to the node, its morphs or its edges. -/
  version : Nat
  /-- The number that the next morph gets; the basic one has 0. -/
  nextMorph : Nat
  deriving DecidableEq, Repr

namespace Node

def new (id : NodeId) (name : String) (qualifier : Option String) : Node where
  id := id
  name := name
  qualifier := qualifier
  quantifier := none
  role := .individual
  nodeType := none
  morphs := [MorphId.ofNode id 0]
  active := none
  version := 1
  nextMorph := 1

def basicMorph (node : Node) : MorphId :=
  node.morphs.headD (MorphId.ofNode node.id 0)

def activeMorph (node : Node) : MorphId :=
  node.active.getD node.basicMorph

def hasMorph (node : Node) (morph : MorphId) : Bool :=
  node.morphs.contains morph

def isPolymorphic (node : Node) : Bool :=
  1 < node.morphs.length

def displayName (node : Node) : String :=
  match node.qualifier with
  | some q => node.name ++ " (" ++ q ++ ")"
  | none => node.name

def bump (node : Node) : Node :=
  { node with version := node.version + 1 }

end Node

/-- One state of a node: the edges that hold in it. -/
structure Morph where
  id : MorphId
  name : Option String
  owner : NodeId
  relations : List RelationId
  attributes : List AttributeId
  deriving DecidableEq, Repr

namespace Morph

def new (id : MorphId) (owner : NodeId) (name : Option String) : Morph :=
  ⟨id, name, owner, [], []⟩

def contains (morph : Morph) : EdgeRef → Bool
  | .relation id => morph.relations.contains id
  | .attr id => morph.attributes.contains id

/-- Adds a reference at the end, unless it is there already. -/
def insert (morph : Morph) (edge : EdgeRef) : Morph :=
  if morph.contains edge then morph
  else
    match edge with
    | .relation id => { morph with relations := morph.relations ++ [id] }
    | .attr id => { morph with attributes := morph.attributes ++ [id] }

def remove (morph : Morph) : EdgeRef → Morph
  | .relation id => { morph with relations := morph.relations.filter (· ≠ id) }
  | .attr id => { morph with attributes := morph.attributes.filter (· ≠ id) }

def refs (morph : Morph) : List EdgeRef :=
  morph.relations.map .relation ++ morph.attributes.map .attr

def isEmpty (morph : Morph) : Bool :=
  morph.relations.isEmpty && morph.attributes.isEmpty

end Morph

structure RelationModifiers where
  adverb : Option String := none
  modality : Option String := none
  subjectQuantifier : Option String := none
  objectQuantifier : Option String := none
  qualifier : Option String := none
  deriving DecidableEq, Repr

structure Relation where
  id : RelationId
  name : String
  source : NodeId
  target : NodeId
  modifiers : RelationModifiers
  deriving DecidableEq, Repr

namespace Relation

def new (source : NodeId) (name : String) (target : NodeId) (modifiers : RelationModifiers) : Relation :=
  ⟨RelationId.compose source name target, name, source, target, modifiers⟩

def involves (relation : Relation) (node : NodeId) : Bool :=
  relation.source == node || relation.target == node

end Relation

structure AttributeModifiers where
  unit : Option String := none
  adverb : Option String := none
  modality : Option String := none
  quantifier : Option String := none
  deriving DecidableEq, Repr

structure Attribute where
  id : AttributeId
  name : String
  owner : NodeId
  value : String
  /-- The value it stands for, where that is known. -/
  typed : Option Value
  modifiers : AttributeModifiers
  deriving DecidableEq, Repr

def Attribute.new (owner : NodeId) (name value : String) (typed : Option Value)
    (modifiers : AttributeModifiers) : Attribute :=
  ⟨AttributeId.compose owner name, name, owner, value, typed, modifiers⟩

inductive Tense where
  | past
  | present
  | future
  deriving DecidableEq, Repr

namespace Tense

def name : Tense → String
  | past => "past"
  | present => "present"
  | future => "future"

def ofName (text : String) : Except String Tense :=
  let key := Text.lowercaseAscii (Text.trim text)
  if key = "past" then .ok past
  else if key = "present" then .ok present
  else if key = "future" then .ok future
  else .error ("unknown tense '" ++ key ++ "'")

end Tense

structure StatePair where
  node : NodeId
  morph : MorphId
  deriving DecidableEq, Repr

namespace StatePair

open Std

instance : Ord StatePair := ⟨compareLex (compareOn node) (compareOn morph)⟩

instance : TransOrd StatePair :=
  inferInstanceAs (TransCmp (compareLex (compareOn node) (compareOn morph)))

instance : LawfulEqOrd StatePair where
  compare_self {a} := by
    show compareLex (compareOn node) (compareOn morph) a a = .eq
    simp [compareLex, compareOn]
  eq_of_compare {a b} h := by
    replace h : compareLex (compareOn node) (compareOn morph) a b = .eq := h
    simp only [compareLex, compareOn, Ordering.then_eq_eq, Std.compare_eq_iff_eq] at h
    cases a
    cases b
    simp_all

def text (pair : StatePair) : String :=
  "(" ++ pair.node.text ++ ", " ++ pair.morph.text ++ ")"

end StatePair

structure Transition where
  id : TransitionId
  name : String
  adjective : Option String
  tense : Tense
  inputs : List StatePair
  outputs : List StatePair
  description : String
  deriving DecidableEq, Repr

namespace Transition

def pairs (t : Transition) : List StatePair :=
  t.inputs ++ t.outputs

def involvesNode (t : Transition) (node : NodeId) : Bool :=
  t.pairs.any (·.node == node)

def involvesMorph (t : Transition) (morph : MorphId) : Bool :=
  t.pairs.any (·.morph == morph)

end Transition

end Morphology
