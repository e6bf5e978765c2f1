import Morphology.Pattern.Basic

/-! How deep a pattern is nested, and how much room the automaton for it takes. Both are limited. -/

namespace Morphology.Pattern

mutual

/-- The number of patterns around the innermost one. -/
def depth : Pattern → Nat
  | empty => 0
  | char _ => 0
  | set _ => 0
  | look _ => 0
  | seq ps => depthOfAll ps + 1
  | alt ps => depthOfAll ps + 1
  | rep p _ _ => depth p + 1
  | group _ _ p => depth p + 1

def depthOfAll : List Pattern → Nat
  | [] => 0
  | p :: ps => max (depth p) (depthOfAll ps)

end

mutual

/-- Whether a match may take no characters, as far as can be told without a text. -/
def mayBeEmpty : Pattern → Bool
  | empty => true
  | char _ => false
  | set _ => false
  | look _ => true
  | seq ps => allMayBeEmpty ps
  | alt ps => anyMayBeEmpty ps
  | rep p low _ => low == 0 || mayBeEmpty p
  | group _ _ p => mayBeEmpty p

def allMayBeEmpty : List Pattern → Bool
  | [] => true
  | p :: ps => mayBeEmpty p && allMayBeEmpty ps

def anyMayBeEmpty : List Pattern → Bool
  | [] => false
  | p :: ps => mayBeEmpty p || anyMayBeEmpty ps

end

def stateSize : Nat := 32

def branchSize (n : Nat) : Nat := stateSize + 4 * n

/-- The bytes that a repetition takes besides the `n` bytes of each copy of what is repeated. The first copies
follow one another; what may be left out, or taken again, hangs on a branch. -/
def repSize (isEmpty : Bool) (low : Nat) (high : Option Nat) (n : Nat) : Nat :=
  match high with
  | some high =>
    if low = 0 ∧ high = 1 then branchSize 2 + n + stateSize
    else if low = high then low * n
    else (if low = 0 then stateSize else low * n) + stateSize + (high - low) * (branchSize 2 + n)
  | none =>
    if low = 0 then (if isEmpty then n + branchSize 2 + branchSize 2 + stateSize else branchSize 2 + n)
    else low * n + branchSize 2

mutual

def statesSize : Pattern → Nat
  | empty => stateSize
  | char _ => stateSize
  | set s => stateSize + 8 * s.ranges.length
  | look _ => stateSize
  | seq ps => statesSizeOfAll ps
  | alt ps => branchSize ps.length + stateSize + statesSizeOfAll ps
  | rep p low high => repSize (mayBeEmpty p) low high (statesSize p)
  | group _ _ p => stateSize + statesSize p + stateSize

def statesSizeOfAll : List Pattern → Nat
  | [] => 0
  | p :: ps => statesSize p + statesSizeOfAll ps

end

mutual

def groups : Pattern → List (Nat × Option String)
  | empty => []
  | char _ => []
  | set _ => []
  | look _ => []
  | seq ps => groupsOfAll ps
  | alt ps => groupsOfAll ps
  | rep p _ _ => groups p
  | group number name p => (number, name) :: groups p

def groupsOfAll : List Pattern → List (Nat × Option String)
  | [] => []
  | p :: ps => groups p ++ groupsOfAll ps

end

/-- The bytes of the table of groups: a line for every number up to the last, the whole match being 0, and the
names. -/
def groupsSize (p : Pattern) : Nat :=
  p.groups.foldl (fun size g => size + (g.2.map fun name => name.utf8ByteSize + 4).getD 0)
    (16 * (p.groups.foldl (fun last g => max last g.1) 0 + 1))

/-- The bytes that the automaton takes, with the two ends of the whole match and the state that accepts. -/
def size (p : Pattern) : Nat := p.statesSize + 3 * stateSize + p.groupsSize

def greatestDepth : Nat := 50

def greatestSize : Nat := 10485760

end Morphology.Pattern
