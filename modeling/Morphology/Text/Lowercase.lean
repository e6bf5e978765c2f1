import Morphology.Text.CaseData

/-! Small letters. Every capital becomes its small form; the capital sigma becomes the final sigma at the
end of a word, and the dotted capital I keeps its dot as a mark of its own. -/

namespace Morphology.Chars

open Morphology.Text

def inRanges (ranges : List (Nat × Nat)) (c : Char) : Bool :=
  ranges.any fun r => r.1 ≤ c.toNat && c.toNat ≤ r.2

def isCased (c : Char) : Bool := inRanges casedRanges c

def isCaseIgnorable (c : Char) : Bool := inRanges caseIgnorableRanges c

def smallForm (n : Nat) (run : CapitalRun) : Option Char :=
  if run.first ≤ n ∧ n ≤ run.last ∧ (n - run.first) % run.step = 0 then
    some (Char.ofNat (run.small + (n - run.first)))
  else none

def lowercaseAscii (c : Char) : Char :=
  if 'A' ≤ c ∧ c ≤ 'Z' then Char.ofNat (c.toNat + 32) else c

def lowercaseChar (c : Char) : List Char :=
  if c.toNat < 128 then [lowercaseAscii c]
  else if c = 'İ' then ['i', '\u0307']
  else [(capitalRuns.findSome? (smallForm c.toNat)).getD c]

/-- Whether the first character that case does not ignore is cased. -/
def meetsCased (cs : List Char) : Bool :=
  match cs.dropWhile isCaseIgnorable with
  | [] => false
  | c :: _ => isCased c

/-- `before` holds what precedes the text, last character first. -/
def lowercaseAfter (before : List Char) : List Char → List Char
  | [] => []
  | c :: cs =>
    (if c = 'Σ' then [if meetsCased before && !meetsCased cs then 'ς' else 'σ']
      else lowercaseChar c) ++ lowercaseAfter (c :: before) cs

def lowercase (cs : List Char) : List Char :=
  lowercaseAfter [] cs

end Morphology.Chars

namespace Morphology.Text

def lowercase (s : String) : String :=
  String.ofList (Chars.lowercase s.toList)

/-- Only the letters A to Z change. -/
def lowercaseAscii (s : String) : String :=
  String.ofList (s.toList.map Chars.lowercaseAscii)

end Morphology.Text
