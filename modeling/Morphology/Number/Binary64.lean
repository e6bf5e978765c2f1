/-! Finite binary64 numbers as sign, mantissa and exponent, and the rounding of a quotient of naturals to the
nearest of them. A tie goes to the even mantissa. -/

namespace Morphology

/-- The number `± mantissa * 2 ^ exponent`. Rounding gives a mantissa below `2 ^ 53` and an exponent of at
least `-1074`, and a mantissa of at least `2 ^ 52` unless the exponent is the least. -/
structure Binary64 where
  negative : Bool
  mantissa : Nat
  exponent : Int
  deriving DecidableEq, Repr

namespace Binary64

def leastExponent : Int := -1074

def greatestExponent : Int := 971

/-- The least mantissa of 53 bits, `2 ^ 52`. -/
def leastNormal : Nat := 0x10000000000000

def zero : Binary64 := ⟨false, 0, leastExponent⟩

/-- Numerator and denominator of `num / den / 2 ^ q`. -/
def scale (num den : Nat) (q : Int) : Nat × Nat :=
  if 0 ≤ q then (num, den <<< q.toNat) else (num <<< (-q).toNat, den)

def divHalfEven (num den : Nat) : Nat :=
  let k := num / den
  let r := 2 * (num % den)
  if r < den ∨ (r = den ∧ k % 2 = 0) then k else k + 1

/-- The exponent at which `num / den` has a mantissa of 53 bits, or the least one. -/
def exponentFor (num den : Nat) : Int :=
  let e : Int := (num.log2 : Int) - den.log2 - 53
  let (n, d) := scale num den e
  max leastExponent (if 2 * leastNormal ≤ n / d then e + 1 else e)

/-- The number nearest to `± num / den`, unless that lies beyond the greatest one. -/
def ofQuotient? (negative : Bool) (num den : Nat) : Option Binary64 :=
  if num = 0 then some ⟨negative, 0, leastExponent⟩
  else
    let q := exponentFor num den
    let (n, d) := scale num den q
    let m := divHalfEven n d
    let (m, q) := if m = 2 * leastNormal then (leastNormal, q + 1) else (m, q)
    if q ≤ greatestExponent then some ⟨negative, m, q⟩ else none

/-- The number nearest to an integer of 64 bits. -/
def ofInt (n : Int) : Binary64 :=
  (ofQuotient? (decide (n < 0)) n.natAbs 1).getD zero

/-- Equality of values: the two zeros are equal. -/
def same (a b : Binary64) : Bool :=
  a == b || (a.mantissa == 0 && b.mantissa == 0)

end Binary64

end Morphology
