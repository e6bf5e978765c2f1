import Morphology.Number.Binary64

/-! Numbers read from decimal text: integers of 64 bits, and binary64 numbers with an optional point and
exponent. -/

namespace Morphology.Chars

def isDigit (c : Char) : Bool := '0' ≤ c && c ≤ '9'

def digitValue (c : Char) : Nat := c.toNat - 48

def digitsValue (cs : List Char) : Nat :=
  cs.foldl (fun n c => 10 * n + digitValue c) 0

/-- The sign, negative or not, and what follows it. -/
def readSign : List Char → Bool × List Char
  | '-' :: cs => (true, cs)
  | '+' :: cs => (false, cs)
  | cs => (false, cs)

def signed (negative : Bool) (n : Nat) : Int :=
  if negative then -n else n

def readNat? (cs : List Char) : Option Nat :=
  if cs ≠ [] ∧ cs.all isDigit then some (digitsValue cs) else none

def fits64 (n : Int) : Bool := -0x8000000000000000 ≤ n && n ≤ 0x7fffffffffffffff

/-- An optional sign and digits, within 64 bits. -/
def readInt? (cs : List Char) : Option Int :=
  let (negative, digits) := readSign cs
  ((readNat? digits).map (signed negative)).filter fits64

/-- The exponent of ten behind the digits; nothing at all means zero. -/
def readExponent? : List Char → Option Int
  | [] => some 0
  | c :: cs =>
    if c = 'e' ∨ c = 'E' then
      let (negative, digits) := readSign cs
      (readNat? digits).map (signed negative)
    else none

/-- The digits behind the point, if there is one, and the rest. -/
def readFraction : List Char → List Char × List Char
  | '.' :: cs => cs.span isDigit
  | cs => ([], cs)

end Morphology.Chars

namespace Morphology.Binary64

open Morphology.Chars

/-- The number nearest to `± n * 10 ^ e`. Exponents far outside the range are settled by the count of
digits, without taking the power. -/
def ofDecimal? (negative : Bool) (n : Nat) (e : Int) : Option Binary64 :=
  let size : Int := (Nat.toDigits 10 n).length + e
  if n = 0 ∨ size < -400 then some ⟨negative, 0, leastExponent⟩
  else if 400 < size then none
  else if 0 ≤ e then ofQuotient? negative (n * Nat.pow 10 e.toNat) 1
  else ofQuotient? negative n (Nat.pow 10 (-e).toNat)

/-- A sign, digits with a point anywhere among them, and an exponent; finite numbers only. -/
def read? (cs : List Char) : Option Binary64 :=
  let (negative, cs) := readSign cs
  let (whole, cs) := cs.span isDigit
  let (fraction, cs) := readFraction cs
  if whole = [] ∧ fraction = [] then none
  else
    match readExponent? cs with
    | none => none
    | some e => ofDecimal? negative (digitsValue (whole ++ fraction)) (e - fraction.length)

end Morphology.Binary64
