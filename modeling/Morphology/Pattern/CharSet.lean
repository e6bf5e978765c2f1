import Morphology.Text.Lowercase

/-! Sets of characters as ranges of code points, in increasing order and with a gap between one range and the
next, so that there is one form for each set. -/

namespace Morphology

structure CharSet where
  ranges : List (Nat × Nat)
  deriving DecidableEq, Repr

namespace CharSet

/-- Ranges that overlap or touch become one. -/
def addRange (r : Nat × Nat) : List (Nat × Nat) → List (Nat × Nat)
  | [] => [r]
  | s :: rest =>
    if r.2 + 1 < s.1 then r :: s :: rest
    else if s.2 + 1 < r.1 then s :: addRange r rest
    else addRange (min r.1 s.1, max r.2 s.2) rest

def ofRanges (ranges : List (Nat × Nat)) : CharSet := ⟨ranges.foldr addRange []⟩

def range (a b : Char) : CharSet := ⟨[(a.toNat, b.toNat)]⟩

def contains (s : CharSet) (c : Char) : Bool := Chars.inRanges s.ranges c

def union (s t : CharSet) : CharSet := ofRanges (s.ranges ++ t.ranges)

def greatest : Nat := 0x10ffff

/-- What the ranges leave out, from `low` on. -/
def gapsFrom (low : Nat) : List (Nat × Nat) → List (Nat × Nat)
  | [] => if low ≤ greatest then [(low, greatest)] else []
  | r :: rest => (if low < r.1 then [(low, r.1 - 1)] else []) ++ gapsFrom (r.2 + 1) rest

def complement (s : CharSet) : CharSet := ⟨gapsFrom 0 s.ranges⟩

/-- The part of a range that lies between two characters. -/
def clip? (a b : Char) (r : Nat × Nat) : Option (Nat × Nat) :=
  let low := max a.toNat r.1
  let high := min b.toNat r.2
  if low ≤ high then some (low, high) else none

/-- The letters A to Z, or a to z, of a range in the other case. A range that holds letters of both cases gives
those of its small letters only. -/
def otherCase? (r : Nat × Nat) : Option (Nat × Nat) :=
  match clip? 'a' 'z' r with
  | some small => some (small.1 - 32, small.2 - 32)
  | none => (clip? 'A' 'Z' r).map fun capital => (capital.1 + 32, capital.2 + 32)

/-- The set for texts in which case does not count. -/
def anyCase (s : CharSet) : CharSet := ofRanges (s.ranges ++ s.ranges.filterMap otherCase?)

def digit : CharSet := range '0' '9'

def space : CharSet := ofRanges [(9, 13), (32, 32)]

def word : CharSet :=
  union digit (union (range 'A' 'Z') (union (range '_' '_') (range 'a' 'z')))

end CharSet

end Morphology
