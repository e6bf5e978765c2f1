import Morphology.Entity

/-! Which node a name stands for. Names are looked up by the folded name and qualifier; a new id is made from
the slug of the name, numbered where the plain one is taken. -/

namespace Morphology

open Std

/-- What two spellings of a name have in common. -/
structure NameKey where
  base : String
  qualifier : Option String
  deriving DecidableEq, Repr

namespace NameKey

instance : Ord NameKey := ⟨compareLex (compareOn base) (compareOn qualifier)⟩

instance : TransOrd NameKey :=
  inferInstanceAs (TransCmp (compareLex (compareOn base) (compareOn qualifier)))

instance : LawfulEqOrd NameKey where
  compare_self {a} := by
    show compareLex (compareOn base) (compareOn qualifier) a a = .eq
    simp [compareLex, compareOn]
  eq_of_compare {a b} h := by
    replace h : compareLex (compareOn base) (compareOn qualifier) a b = .eq := h
    simp only [compareLex, compareOn, Ordering.then_eq_eq, Std.compare_eq_iff_eq] at h
    cases a
    cases b
    simp_all

def ofName (name : String) (qualifier : Option String) : NameKey :=
  ⟨Text.fold name, (qualifier.map Text.fold).filter fun q => !q.isEmpty⟩

end NameKey

structure NameBook where
  space : Namespace
  byName : Table NameKey NodeId := ∅
  /-- Every id in use, also of nodes whose name stands for another one. -/
  taken : KeySet NodeId := ∅
  deriving DecidableEq

namespace NameBook

def lookup (book : NameBook) (name : String) (qualifier : Option String) : Option NodeId :=
  book.byName.get? (NameKey.ofName name qualifier)

/-- The slugs of name and qualifier; a low line where there is nothing to make one from. -/
def idSlug (name : String) (qualifier : Option String) : String :=
  let base :=
    match (qualifier.map Text.slug).filter fun q => !q.isEmpty with
    | some q => Text.slug name ++ "_" ++ q
    | none => Text.slug name
  if base.isEmpty then "_" else base

def numbered (stem : String) (n : Nat) : NodeId :=
  ⟨stem ++ "~" ++ Text.ofNat n⟩

/-- The first free id among those numbered from `n` on. -/
def firstFree (taken : KeySet NodeId) (stem : String) : Nat → Nat → Option NodeId
  | 0, _ => none
  | tries + 1, n =>
    if taken.contains (numbered stem n) then firstFree taken stem tries (n + 1)
    else some (numbered stem n)

/-- A free id for a name. One more try than there are ids in use always finds one. -/
def mint (book : NameBook) (name : String) (qualifier : Option String) : NodeId :=
  let stem := book.space.stem ++ idSlug name qualifier
  if book.taken.contains ⟨stem⟩ then (firstFree book.taken stem (book.taken.size + 1) 2).getD ⟨stem⟩
  else ⟨stem⟩

/-- Takes the id, and lets the name stand for it unless the name stands for another one. -/
def register (book : NameBook) (id : NodeId) (name : String) (qualifier : Option String) :
    Bool × NameBook :=
  let key := NameKey.ofName name qualifier
  let taken := KeySet.add book.taken id
  if book.byName.contains key then (false, { book with taken := taken })
  else (true, { book with taken := taken, byName := book.byName.insert key id })

def unregister (book : NameBook) (id : NodeId) (name : String) (qualifier : Option String) : NameBook :=
  let key := NameKey.ofName name qualifier
  { book with
    byName := if book.byName.get? key = some id then book.byName.erase key else book.byName
    taken := book.taken.erase id }

end NameBook

end Morphology
