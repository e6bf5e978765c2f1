import Morphology.Text.Blank

/-! Cutting texts: at the first occurrence of a separator, behind a given beginning, and into lines. -/

namespace Morphology.Chars

/-- What stands before and behind the first occurrence of `sep`. -/
def splitFirst (sep : List Char) : List Char → Option (List Char × List Char)
  | [] => if sep.isEmpty then some ([], []) else none
  | c :: cs =>
    if sep.isPrefixOf (c :: cs) then some ([], (c :: cs).drop sep.length)
    else (splitFirst sep cs).map fun (before, after) => (c :: before, after)

def contains (part cs : List Char) : Bool :=
  (splitFirst part cs).isSome

/-- The text behind `start`, where the text begins so. -/
def behind? (start cs : List Char) : Option (List Char) :=
  if start.isPrefixOf cs then some (cs.drop start.length) else none

/-- The text before `ending`, where the text ends so. -/
def before? (ending cs : List Char) : Option (List Char) :=
  if ending.isSuffixOf cs then some (cs.take (cs.length - ending.length)) else none

/-- A carriage return at the end belongs to the line break. -/
def dropReturn (line : List Char) : List Char :=
  (before? ['\r'] line).getD line

def finishLines : List (List Char) → List (List Char)
  | [] => []
  | [last] => if last.isEmpty then [] else [last]
  | line :: rest => dropReturn line :: finishLines rest

/-- The lines of a text. A break ends a line, so that text behind the last break is one more line only
if there is any. -/
def lines (cs : List Char) : List (List Char) :=
  finishLines (pieces (· == '\n') cs)

theorem splitFirst_eq {sep cs before after : List Char}
    (h : splitFirst sep cs = some (before, after)) : cs = before ++ sep ++ after := by
  induction cs generalizing before with
  | nil =>
    simp only [splitFirst] at h
    split at h
    · simp_all
    · cases h
  | cons c cs ih =>
    simp only [splitFirst] at h
    split at h
    · rename_i hp
      obtain ⟨rest, hr⟩ := List.isPrefixOf_iff_prefix.mp hp
      simp only [Option.some.injEq, Prod.mk.injEq] at h
      obtain ⟨rfl, rfl⟩ := h
      simp [← hr]
    · obtain ⟨⟨b, a⟩, hs, he⟩ := Option.map_eq_some_iff.mp h
      simp only [Prod.mk.injEq] at he
      obtain ⟨rfl, rfl⟩ := he
      rw [ih hs]
      simp

end Morphology.Chars

namespace Morphology.Text

def splitFirst (sep s : String) : Option (String × String) :=
  (Chars.splitFirst sep.toList s.toList).map fun (before, after) =>
    (String.ofList before, String.ofList after)

def contains (part s : String) : Bool :=
  Chars.contains part.toList s.toList

def behind? (start s : String) : Option String :=
  (Chars.behind? start.toList s.toList).map String.ofList

def lines (s : String) : List String :=
  (Chars.lines s.toList).map String.ofList

def join (sep : String) (parts : List String) : String :=
  sep.intercalate parts

def concat (parts : List String) : String :=
  parts.foldr (· ++ ·) ""

def ofNat (n : Nat) : String :=
  String.ofList (Nat.toDigits 10 n)

def ofInt (n : Int) : String :=
  if n < 0 then "-" ++ ofNat n.natAbs else ofNat n.natAbs

end Morphology.Text
