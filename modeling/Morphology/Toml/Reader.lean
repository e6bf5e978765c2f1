import Morphology.Text.Split

/-! Reading a text from the front. A reader takes characters off a text and fails where the text does not go
on as it must. -/

namespace Morphology

abbrev Reader (α : Type) : Type := StateT (List Char) Option α

namespace Reader

variable {α : Type}

/-- The next character, without taking it. -/
def peek : Reader (Option Char) := fun cs => some (cs.head?, cs)

def takeWhile (p : Char → Bool) : Reader (List Char) := fun cs => some (cs.takeWhile p, cs.dropWhile p)

def takeSome (p : Char → Bool) : Reader (List Char) := do
  let cs ← takeWhile p
  if cs.isEmpty then failure else return cs

/-- Exactly `n` characters that satisfy `p`. -/
def takeCount (n : Nat) (p : Char → Bool) : Reader (List Char) := fun cs =>
  let front := cs.take n
  if front.length = n ∧ front.all p then some (front, cs.drop n) else none

def next : Reader Char
  | [] => none
  | c :: cs => some (c, cs)

def expect (text : List Char) : Reader Unit := fun cs => (Chars.behind? text cs).map ((), ·)

/-- Takes `text` where the text goes on with it; tells whether it did. -/
def accept (text : List Char) : Reader Bool := fun cs =>
  match Chars.behind? text cs with
  | some rest => some (true, rest)
  | none => some (false, cs)

def ahead (text : List Char) : Reader Bool := fun cs => some (text.isPrefixOf cs, cs)

def repeatUpTo (step : Reader (Option α)) : Nat → Reader (List α)
  | 0 => failure
  | n + 1 => do
    match ← step with
    | none => return []
    | some a =>
      let rest ← repeatUpTo step n
      return a :: rest

/-- Repeats a step until it has nothing to add. Every step but the last takes a character, so that there are
no more of them than characters. -/
def many (step : Reader (Option α)) : Reader (List α) := fun cs => repeatUpTo step (cs.length + 1) cs

end Reader

end Morphology
