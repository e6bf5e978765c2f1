import Morphology.Table

/-! Finite sets in increasing order, and finite relations between keys and items. An index lists the items of
a key in increasing order; a key without items leaves no trace. -/

namespace Morphology

open Std

abbrev KeySet (κ : Type) [Ord κ] : Type := Table κ Unit

namespace KeySet

variable {κ : Type} [Ord κ] [TransOrd κ]

def add (s : KeySet κ) (k : κ) : KeySet κ := Table.insert s k ()

def ofList (ks : List κ) : KeySet κ := ks.foldl add ∅

end KeySet

/-- One pair of a relation, ordered by key first. -/
structure Pairing (κ α : Type) where
  key : κ
  item : α
  deriving DecidableEq

namespace Pairing

variable {κ α : Type} [Ord κ] [Ord α]

instance : Ord (Pairing κ α) := ⟨compareLex (compareOn key) (compareOn item)⟩

instance [TransOrd κ] [TransOrd α] : TransOrd (Pairing κ α) :=
  inferInstanceAs (TransCmp (compareLex (compareOn key) (compareOn item)))

instance [LawfulEqOrd κ] [LawfulEqOrd α] : LawfulEqOrd (Pairing κ α) where
  compare_self {a} := by
    show compareLex (compareOn key) (compareOn item) a a = .eq
    simp [compareLex, compareOn]
  eq_of_compare {a b} h := by
    replace h : compareLex (compareOn key) (compareOn item) a b = .eq := h
    simp only [compareLex, compareOn, Ordering.then_eq_eq] at h
    obtain ⟨a, i⟩ := a
    obtain ⟨b, j⟩ := b
    simp_all

end Pairing

structure Index (κ α : Type) [Ord κ] [Ord α] where
  pairs : KeySet (Pairing κ α)
  deriving DecidableEq

namespace Index

variable {κ α : Type} [Ord κ] [Ord α]

instance : EmptyCollection (Index κ α) := ⟨⟨∅⟩⟩

instance : Inhabited (Index κ α) := ⟨∅⟩

def items (x : Index κ α) (k : κ) : List α :=
  (x.pairs.keys.filter fun p => compare k p.key == .eq).map (·.item)

def count (x : Index κ α) (k : κ) : Nat := (x.items k).length

def remove (x : Index κ α) (k : κ) (a : α) : Index κ α := ⟨x.pairs.erase ⟨k, a⟩⟩

def removeKey (x : Index κ α) (k : κ) : Index κ α :=
  ⟨x.pairs.filter fun p _ => compare k p.key != .eq⟩

def add [TransOrd κ] [TransOrd α] (x : Index κ α) (k : κ) (a : α) : Index κ α :=
  ⟨KeySet.add x.pairs ⟨k, a⟩⟩

end Index

end Morphology
