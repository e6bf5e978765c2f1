/-! White space: which characters are blank, texts without blanks at their ends, and the words between
blanks. Names are compared and stored with their words joined by single spaces. -/

namespace Morphology.Chars

/-- The characters with the White_Space property. -/
def isBlank (c : Char) : Bool :=
  let n := c.toNat
  (9 ≤ n && n ≤ 13) || n == 0x20 || n == 0x85 || n == 0xA0 || n == 0x1680 ||
    (0x2000 ≤ n && n ≤ 0x200A) || n == 0x2028 || n == 0x2029 || n == 0x202F || n == 0x205F ||
    n == 0x3000

def trimStart (cs : List Char) : List Char :=
  cs.dropWhile isBlank

/-- `cs` without the longest run at its end in which every character satisfies `p`. -/
def dropEndWhile (p : Char → Bool) : List Char → List Char
  | [] => []
  | c :: cs =>
    match dropEndWhile p cs with
    | [] => if p c then [] else [c]
    | d :: ds => c :: d :: ds

def trimEnd (cs : List Char) : List Char :=
  dropEndWhile isBlank cs

def trim (cs : List Char) : List Char :=
  trimEnd (trimStart cs)

/-- The parts between the characters satisfying `p`, empty ones included; there is always one part
more than there are such characters. -/
def pieces (p : Char → Bool) : List Char → List (List Char)
  | [] => [[]]
  | c :: cs =>
    if p c then [] :: pieces p cs
    else
      match pieces p cs with
      | [] => [[c]]
      | part :: parts => (c :: part) :: parts

def words (cs : List Char) : List (List Char) :=
  (pieces isBlank cs).filter fun part => !part.isEmpty

/-- The words of `cs` with one space between neighbours. -/
def collapse (cs : List Char) : List Char :=
  [' '].intercalate (words cs)

theorem pieces_ne_nil (p : Char → Bool) (cs : List Char) : pieces p cs ≠ [] := by
  cases cs with
  | nil => simp [pieces]
  | cons c cs =>
    simp only [pieces]
    split
    · simp
    · split <;> simp

end Morphology.Chars

namespace Morphology.Text

def trim (s : String) : String :=
  String.ofList (Chars.trim s.toList)

def collapse (s : String) : String :=
  String.ofList (Chars.collapse s.toList)

def isBlank (s : String) : Bool :=
  s.toList.all Chars.isBlank

/-- A text that may be missing; one without words counts as missing. -/
def collapse? (s : Option String) : Option String :=
  (s.map collapse).filter fun t => !t.isEmpty

end Morphology.Text
