import Morphology.Number.Decimal
import Morphology.Text.Lowercase
import Morphology.Text.Split
import Morphology.Toml.Basic

/-! The numbers and dates of TOML, told by the form of their text. -/

namespace Morphology.Toml

open Chars

/-- The digits of a text in which a low line may stand between two digits. -/
def groupedDigits? (isDigit : Char → Bool) (cs : List Char) : Option (List Char) :=
  let groups := pieces (· == '_') cs
  if groups.all fun group => !group.isEmpty && group.all isDigit then some groups.flatten else none

/-- Decimal digits without needless zeros in front. -/
def wholeDigits? (cs : List Char) : Option (List Char) :=
  match groupedDigits? isDigit cs with
  | some ['0'] => some ['0']
  | some ('0' :: _) => none
  | digits => digits

def baseValue (base : Nat) (cs : List Char) : Nat :=
  cs.foldl (fun n c => base * n + (if isDigit c then digitValue c else (lowercaseAscii c).toNat - 87)) 0

def isDigitOf (base : Nat) (c : Char) : Bool :=
  if isDigit c then digitValue c < base
  else 'a' ≤ lowercaseAscii c && (lowercaseAscii c).toNat - 87 < base

def inBase? (base : Nat) (cs : List Char) : Option Int :=
  (groupedDigits? (isDigitOf base) cs).map fun digits => baseValue base digits

def integer? (cs : List Char) : Option Int :=
  match cs with
  | '0' :: 'x' :: digits => (inBase? 16 digits).filter fits64
  | '0' :: 'o' :: digits => (inBase? 8 digits).filter fits64
  | '0' :: 'b' :: digits => (inBase? 2 digits).filter fits64
  | _ =>
    let (negative, digits) := readSign cs
    ((wholeDigits? digits).map fun digits => signed negative (digitsValue digits)).filter fits64

def isExponentMark (c : Char) : Bool := c == 'e' || c == 'E'

def isExponentPart : List Char → Bool
  | [] => true
  | mark :: cs => isExponentMark mark && (groupedDigits? isDigit (readSign cs).2).isSome

/-- A point with decimals and perhaps an exponent, or an exponent alone. -/
def isFractionPart : List Char → Bool
  | '.' :: cs =>
    (groupedDigits? isDigit (cs.takeWhile fun c => !isExponentMark c)).isSome &&
      isExponentPart (cs.dropWhile fun c => !isExponentMark c)
  | [] => false
  | cs => isExponentPart cs

/-- A number beyond the greatest binary64 one is refused; one below the least is not. -/
def isFloat (cs : List Char) : Bool :=
  let (negative, body) := readSign cs
  if body = ['i', 'n', 'f'] ∨ body = ['n', 'a', 'n'] then true
  else
    let isWhole (c : Char) : Bool := isDigit c || c == '_'
    (wholeDigits? (body.takeWhile isWhole)).isSome && isFractionPart (body.dropWhile isWhole) &&
      (negative || (Binary64.read? (body.filter (· ≠ '_'))).isSome)

/-- Digits for a number between `low` and `high`, exactly as many as `count`. -/
def isField (count low high : Nat) (cs : List Char) : Bool :=
  cs.length == count && cs.all isDigit && low ≤ digitsValue cs && digitsValue cs ≤ high

def daysIn (year month : Nat) : Nat :=
  if month = 2 then (if year % 4 = 0 ∧ (year % 100 ≠ 0 ∨ year % 400 = 0) then 29 else 28)
  else if month = 4 ∨ month = 6 ∨ month = 9 ∨ month = 11 then 30
  else 31

def isDay (cs : List Char) : Bool :=
  match pieces (· == '-') cs with
  | [year, month, day] =>
    isField 4 0 9999 year && isField 2 1 12 month &&
      isField 2 1 (daysIn (digitsValue year) (digitsValue month)) day
  | _ => false

def isClock (cs : List Char) : Bool :=
  match pieces (· == ':') cs with
  | [hour, minute, second] =>
    isField 2 0 23 hour && isField 2 0 59 minute &&
      match splitFirst ['.'] second with
      | none => isField 2 0 60 second
      | some (whole, fraction) => isField 2 0 60 whole && !fraction.isEmpty && fraction.all isDigit
  | _ => false

def isOffset (cs : List Char) : Bool :=
  match cs with
  | [] => true
  | ['Z'] => true
  | ['z'] => true
  | sign :: cs =>
    (sign == '+' || sign == '-') &&
      match pieces (· == ':') cs with
      | [hour, minute] => isField 2 0 23 hour && isField 2 0 59 minute
      | _ => false

def isTime (cs : List Char) : Bool :=
  let inClock (c : Char) : Bool := isDigit c || c == ':' || c == '.'
  isClock (cs.takeWhile inClock) && isOffset (cs.dropWhile inClock)

def isDate (cs : List Char) : Bool :=
  isClock cs || isDay (cs.take 10) &&
    match cs.drop 10 with
    | [] => true
    | mark :: time => (mark == 'T' || mark == 't' || mark == ' ') && isTime time

/-- The value of a text without blanks that starts like a number, or of a date with one blank. -/
def ofNumber? (cs : List Char) : Option Toml :=
  match integer? cs with
  | some n => some (.integer n)
  | none =>
    if isFloat cs then some (.float (String.ofList cs))
    else if isDate cs then some (.date (String.ofList cs))
    else none

end Morphology.Toml
