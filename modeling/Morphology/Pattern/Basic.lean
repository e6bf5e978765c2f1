import Morphology.Pattern.CharSet

/-! Patterns, and where they match. A match may begin anywhere in a text. The places of a text are marked or not:
a pattern takes the marks where matches begin to the marks where they can end. -/

namespace Morphology

/-- A condition on a place, which takes no characters. -/
inductive Look where
  | textStart
  | textEnd
  | lineStart
  | lineEnd
  /-- As `lineStart`, where a carriage return may be part of a line break. -/
  | returnStart
  | returnEnd
  | boundary
  | noBoundary
  | wordStart
  | wordEnd
  | wordStartHalf
  | wordEndHalf
  deriving DecidableEq, Repr

inductive Pattern where
  | empty
  | char (c : Char)
  | set (s : CharSet)
  | look (l : Look)
  | seq (ps : List Pattern)
  | alt (ps : List Pattern)
  /-- At least `low` times, and at most `high` times if given. -/
  | rep (p : Pattern) (low : Nat) (high : Option Nat)
  /-- Groups are numbered from 1, in the order in which they open. -/
  | group (number : Nat) (name : Option String) (p : Pattern)
  deriving Repr

/-- A place in a text: the characters on its two sides. -/
structure Spot where
  before : Option Char
  after : Option Char
  deriving DecidableEq, Repr

namespace Spot

/-- The places of a text with `before` in front of it; there is one more of them than there are characters. -/
def ofChars (before : Option Char) : List Char → List Spot
  | [] => [⟨before, none⟩]
  | c :: cs => ⟨before, some c⟩ :: ofChars (some c) cs

def isWord (c : Option Char) : Bool := c.any CharSet.word.contains

def holds (s : Spot) : Look → Bool
  | .textStart => s.before.isNone
  | .textEnd => s.after.isNone
  | .lineStart => s.before.isNone || s.before == some '\n'
  | .lineEnd => s.after.isNone || s.after == some '\n'
  | .returnStart =>
    s.before.isNone || s.before == some '\n' || (s.before == some '\r' && s.after != some '\n')
  | .returnEnd =>
    s.after.isNone || s.after == some '\r' || (s.after == some '\n' && s.before != some '\r')
  | .boundary => isWord s.before != isWord s.after
  | .noBoundary => isWord s.before == isWord s.after
  | .wordStart => !isWord s.before && isWord s.after
  | .wordEnd => isWord s.before && !isWord s.after
  | .wordStartHalf => !isWord s.before
  | .wordEndHalf => !isWord s.after

end Spot

/-- For each place of a text whether it is marked. -/
abbrev Marks : Type := List Bool

namespace Marks

def isClear (ms : Marks) : Bool := !ms.contains true

def either (a b : Marks) : Marks := List.zipWith (· || ·) a b

def without (a b : Marks) : Marks := List.zipWith (fun x y => x && !y) a b

def keep (p : Spot → Bool) (spots : List Spot) (ms : Marks) : Marks :=
  List.zipWith (fun m spot => m && p spot) ms spots

def advance (ms : Marks) : Marks := false :: ms.dropLast

/-- The marks after exactly `n` steps. -/
def walk (step : Marks → Marks) : Nat → Marks → Marks
  | 0, ms => ms
  | n + 1, ms => if ms.isClear then ms else walk step n (step ms)

/-- The marks `seen` and those that at most `n` more steps lead to. Only from the marks of the step before can
a step lead to a new one. -/
def reach (step : Marks → Marks) : Nat → Marks → Marks → Marks
  | 0, _, seen => seen
  | n + 1, new, seen =>
    let found := without (step new) seen
    if found.isClear then seen else reach step n found (either seen found)

end Marks

namespace Pattern

mutual

/-- The places where matches that begin at marked places can end. A repetition of more turns than there are
characters has turns that take none, and so leads nowhere new. -/
def ends (spots : List Spot) : Pattern → Marks → Marks
  | empty, ms => ms
  | char c, ms => Marks.advance (Marks.keep (fun s => s.after == some c) spots ms)
  | set cs, ms => Marks.advance (Marks.keep (fun s => s.after.any cs.contains) spots ms)
  | look l, ms => Marks.keep (fun s => s.holds l) spots ms
  | seq ps, ms => endsOfAll spots ps ms
  | alt ps, ms => endsOfAny spots ps ms
  | group _ _ p, ms => ends spots p ms
  | rep p low high, ms =>
    let least := Marks.walk (ends spots p) (min low spots.length) ms
    Marks.reach (ends spots p) ((high.map (· - low)).getD spots.length) least least

def endsOfAll (spots : List Spot) : List Pattern → Marks → Marks
  | [], ms => ms
  | p :: ps, ms => endsOfAll spots ps (ends spots p ms)

def endsOfAny (spots : List Spot) : List Pattern → Marks → Marks
  | [], ms => ms.map fun _ => false
  | p :: ps, ms => Marks.either (ends spots p ms) (endsOfAny spots ps ms)

end

def matchesIn (p : Pattern) (text : String) : Bool :=
  let spots := Spot.ofChars none text.toList
  !(p.ends spots (spots.map fun _ => true)).isClear

end Pattern

end Morphology
