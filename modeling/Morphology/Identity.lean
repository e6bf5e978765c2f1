import Morphology.Index
import Morphology.Text.Fold
import Morphology.Text.Split

/-! Ids. Every entity is named by a text. Node ids start with the user and the graph that made them; the ids of
morphs, edges and transitions are composed from what they belong to, so that the same statement always
lands on the same record. -/

namespace Morphology

open Std

inductive EntityKind where
  | node
  | morph
  | relation
  | attr
  | transition
  deriving DecidableEq, Repr

def EntityKind.name : EntityKind → String
  | .node => "node"
  | .morph => "morph"
  | .relation => "relation"
  | .attr => "attribute"
  | .transition => "transition"

@[ext]
structure Id (kind : EntityKind) where
  text : String
  deriving DecidableEq, Repr

abbrev NodeId := Id .node

abbrev MorphId := Id .morph

abbrev RelationId := Id .relation

abbrev AttributeId := Id .attr

abbrev TransitionId := Id .transition

namespace Id

variable {kind : EntityKind}

instance : Ord (Id kind) := ⟨compareOn text⟩

instance : TransOrd (Id kind) := inferInstanceAs (TransCmp (compareOn text))

instance : LawfulEqOrd (Id kind) where
  compare_self {a} := by
    show compareOn text a a = .eq
    simp [compareOn]
  eq_of_compare {a b} h := by
    replace h : compareOn text a b = .eq := h
    simp only [compareOn, Std.compare_eq_iff_eq] at h
    cases a
    cases b
    simp_all

end Id

/-- The user and the graph that node ids are made for. -/
structure Namespace where
  user : String
  graph : String
  deriving DecidableEq, Repr

namespace Namespace

def text (space : Namespace) : String :=
  space.user ++ "/" ++ space.graph

/-- What every node id made here starts with. -/
def stem (space : Namespace) : String :=
  space.user ++ "/" ++ space.graph ++ "/"

def owns (space : Namespace) (id : NodeId) : Bool :=
  space.stem.toList.isPrefixOf id.text.toList

end Namespace

/-- The namespace an id was made in, as far as its text has one. -/
def NodeId.namespace? (id : NodeId) : Option Namespace := do
  let (user, rest) ← Text.splitFirst "/" id.text
  let (graph, _) ← Text.splitFirst "/" rest
  return ⟨user, graph⟩

/-- The id of the morph number `index` made for a node; number 0 is the basic morph. -/
def MorphId.ofNode (node : NodeId) (index : Nat) : MorphId :=
  ⟨node.text ++ "::morph::" ++ Text.ofNat index⟩

def RelationId.compose (source : NodeId) (name : String) (target : NodeId) : RelationId :=
  ⟨source.text ++ "::" ++ name ++ "::" ++ target.text⟩

def AttributeId.compose (owner : NodeId) (name : String) : AttributeId :=
  ⟨owner.text ++ "::" ++ name⟩

def TransitionId.part (s : String) : String :=
  String.ofList (s.toList.map fun c => if c = ' ' then '_' else c)

def TransitionId.compose (name : String) : Option String → TransitionId
  | some adjective => ⟨"transition::" ++ part adjective ++ "::" ++ part name⟩
  | none => ⟨"transition::" ++ part name⟩

/-- The id of the transition with this name and adjective, in any spelling. -/
def TransitionId.ofName (name : String) (adjective : Option String) : TransitionId :=
  compose (Text.fold name) ((adjective.map Text.fold).filter fun a => !a.isEmpty)

inductive EdgeRef where
  | relation (id : RelationId)
  | attr (id : AttributeId)
  deriving DecidableEq, Repr

namespace EdgeRef

def text : EdgeRef → String
  | relation id => id.text
  | attr id => id.text

def kind : EdgeRef → EntityKind
  | relation _ => .relation
  | attr _ => .attr

def isAttribute : EdgeRef → Bool
  | relation _ => false
  | attr _ => true

instance : Ord EdgeRef := ⟨compareLex (compareOn isAttribute) (compareOn text)⟩

instance : TransOrd EdgeRef :=
  inferInstanceAs (TransCmp (compareLex (compareOn isAttribute) (compareOn text)))

instance : LawfulEqOrd EdgeRef where
  compare_self {a} := by
    show compareLex (compareOn isAttribute) (compareOn text) a a = .eq
    simp [compareLex, compareOn]
  eq_of_compare {a b} h := by
    replace h : compareLex (compareOn isAttribute) (compareOn text) a b = .eq := h
    simp only [compareLex, compareOn, Ordering.then_eq_eq, Std.compare_eq_iff_eq] at h
    cases a <;> cases b <;> simp_all [isAttribute, text, ← Id.ext_iff]

end EdgeRef

end Morphology
