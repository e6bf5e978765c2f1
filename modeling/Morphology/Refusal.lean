import Morphology.Identity

/-! Why a change is refused: something named does not exist, must stay, or would be left pointing nowhere; a
name is taken; a node was changed in the meantime. -/

namespace Morphology

inductive ReferenceError where
  | notFound (kind : EntityKind) (id : String)
  | protectedMorph (morph : MorphId)
  | dangling (source target : String)
  deriving DecidableEq, Repr

def ReferenceError.message : ReferenceError → String
  | notFound kind id => kind.name ++ " not found: " ++ id
  | protectedMorph morph => "morph " ++ morph.text ++ " is the basic morph and cannot be deleted"
  | dangling source target => "dangling reference from " ++ source ++ " to " ++ target

inductive Tier where
  | global
  | user
  | graph
  deriving DecidableEq, Repr

def Tier.name : Tier → String
  | global => "global"
  | user => "user"
  | graph => "graph"

structure DuplicateError where
  name : String
  tier : Tier
  deriving DecidableEq, Repr

def DuplicateError.message (e : DuplicateError) : String :=
  "duplicate name '" ++ e.name ++ "' in " ++ e.tier.name ++ " tier"

structure ConflictError where
  node : NodeId
  expected : Nat
  found : Nat
  deriving DecidableEq, Repr

def ConflictError.message (e : ConflictError) : String :=
  "version conflict on node " ++ e.node.text ++ ": expected " ++ Text.ofNat e.expected ++ ", found " ++
    Text.ofNat e.found

inductive EditError where
  | reference (e : ReferenceError)
  | conflict (e : ConflictError)
  | duplicate (e : DuplicateError)
  deriving DecidableEq, Repr

def EditError.message : EditError → String
  | reference e => e.message
  | conflict e => e.message
  | duplicate e => e.message

end Morphology
