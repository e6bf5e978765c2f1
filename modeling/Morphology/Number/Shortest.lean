import Morphology.Number.Decimal
import Morphology.Text.Split

/-! The shortest decimal text of a binary64 number: the fewest digits that read back as the number, and of
those the nearest. -/

namespace Morphology.Binary64

/-- Which neighbour is taken when a number lies halfway between two decimals of equal length. -/
inductive Tie where
  | up
  | even
  deriving DecidableEq

def power (base : Nat) (e : Int) : Nat × Nat :=
  if 0 ≤ e then (Nat.pow base e.toNat, 1) else (1, Nat.pow base (-e).toNat)

/-- A number with the ends of the interval that rounds to it, all in quarters of its last place. -/
structure Interval where
  low : Nat
  middle : Nat
  high : Nat
  /-- Whether the ends belong to the interval. -/
  closed : Bool
  unit : Nat × Nat

def interval (x : Binary64) : Interval where
  low := if x.mantissa = leastNormal ∧ leastExponent < x.exponent then 4 * x.mantissa - 1 else 4 * x.mantissa - 2
  middle := 4 * x.mantissa
  high := 4 * x.mantissa + 2
  closed := x.mantissa % 2 = 0
  unit := power 2 (x.exponent - 2)

/-- Whether `k` steps of the grid lie in the interval; all is brought to one denominator. -/
def Interval.holds (i : Interval) (grid : Nat × Nat) (k : Nat) : Bool :=
  let value := k * grid.1 * i.unit.2
  let low := i.low * i.unit.1 * grid.2
  let high := i.high * i.unit.1 * grid.2
  if i.closed then low ≤ value && value ≤ high else low < value && value < high

/-- The greatest `k` with `10 ^ k` at most the number. -/
def magnitude (x : Binary64) : Int :=
  let estimate := Int.fdiv (((x.mantissa.log2 : Int) + x.exponent) * 30103) 100000
  let reaches (k : Int) : Bool :=
    let (tn, td) := power 10 k
    let (un, ud) := power 2 x.exponent
    tn * ud ≤ x.mantissa * un * td
  if reaches (estimate + 1) then estimate + 1 else if reaches estimate then estimate else estimate - 1

/-- The decimal with steps of `10 ^ e` that lies in the interval and nearest to its middle. -/
def nearestOn (tie : Tie) (i : Interval) (e : Int) : Option Nat :=
  let grid := power 10 e
  let num := i.middle * i.unit.1 * grid.2
  let den := i.unit.2 * grid.1
  let k := num / den
  let r := 2 * (num % den)
  let lower := i.holds grid k
  let upper := i.holds grid (k + 1)
  if lower && upper then
    if r < den ∨ (r = den ∧ tie = .even ∧ k % 2 = 0) then some k else some (k + 1)
  else if lower then some k
  else if upper then some (k + 1)
  else none

def stripZeros : Nat → Nat → Int → Nat × Int
  | 0, n, e => (n, e)
  | fuel + 1, n, e => if n ≠ 0 ∧ n % 10 = 0 then stripZeros fuel (n / 10) (e + 1) else (n, e)

/-- Digits `n` and exponent `e` such that `n * 10 ^ e` is the shortest decimal for `x`. -/
def shortest (tie : Tie) (x : Binary64) : Nat × Int :=
  if x.mantissa = 0 then (0, 0)
  else
    let top := x.magnitude
    let i := x.interval
    let found := (List.range 17).findSome? fun (k : Nat) =>
      (nearestOn tie i (top - k)).map fun n => (n, top - (k : Int))
    let (n, e) := found.getD (0, 0)
    stripZeros 20 n e

def signText (x : Binary64) : List Char :=
  if x.negative then ['-'] else []

/-- Digits with the point after the first `point` of them, zeros filling up on either side. -/
def placePoint (digits : List Char) (point : Int) : List Char :=
  if point ≤ 0 then '0' :: '.' :: List.replicate (-point).toNat '0' ++ digits
  else if (digits.length : Int) ≤ point then
    digits ++ List.replicate (point.toNat - digits.length) '0'
  else digits.take point.toNat ++ '.' :: digits.drop point.toNat

/-- Never an exponent, and no point on whole numbers. -/
def plainText (x : Binary64) : String :=
  let (n, e) := shortest .up x
  let digits := Nat.toDigits 10 n
  String.ofList (signText x ++ placePoint digits (digits.length + e))

def exponentText (e : Int) : List Char :=
  'e' :: (if e < 0 then '-' else '+') :: Nat.toDigits 10 e.natAbs

/-- Positional with at least one decimal for decimal exponents from -5 to 15, scientific otherwise. -/
def jsonText (x : Binary64) : String :=
  let (n, e) := shortest .even x
  let digits := Nat.toDigits 10 n
  let point : Int := digits.length + e
  let body :=
    if x.mantissa = 0 then ['0', '.', '0']
    else if -4 ≤ point ∧ point ≤ 16 then
      placePoint digits point ++ (if (digits.length : Int) ≤ point then ['.', '0'] else [])
    else
      match digits with
      | [d] => d :: exponentText (point - 1)
      | d :: ds => d :: '.' :: ds ++ exponentText (point - 1)
      | [] => []
  String.ofList (signText x ++ body)

end Morphology.Binary64
