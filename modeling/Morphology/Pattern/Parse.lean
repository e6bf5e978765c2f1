import Morphology.Pattern.Error
import Morphology.Pattern.Size
import Morphology.Text.Letter
import Morphology.Text.Split

/-! Patterns read from text. Characters stand for themselves but for a few that group, repeat, choose, or begin a
class or an escape. Flags hold from where they are set to the end of the group. -/

namespace Morphology

structure PatternFlags where
  anyCase : Bool := false
  multiLine : Bool := false
  dotAll : Bool := false
  /-- Whether a carriage return may be part of a line break. -/
  returns : Bool := false
  /-- Whether blanks and comments are skipped. -/
  spaced : Bool := false

/-- The text still to be read, and the number and the names of the groups so far. -/
structure PatternText where
  rest : List Char
  groups : Nat := 0
  names : List String := []

abbrev PatternReader (α : Type) : Type := StateT PatternText (Except PatternError) α

namespace PatternReader

variable (flags : PatternFlags)

def peek : PatternReader (Option Char) := return (← get).rest.head?

def peekSecond : PatternReader (Option Char) := return ((← get).rest.drop 1).head?

/-- What follows the next character and the blanks after it, where they do not count. Of a comment only the
mark is passed over. -/
def peekBehind : PatternReader (Option Char) := do
  let rest := (← get).rest.drop 1
  if flags.spaced then
    match rest.dropWhile Chars.isBlank with
    | '#' :: cs => return (cs.dropWhile Chars.isBlank).head?
    | cs => return cs.head?
  else return rest.head?

def skipBlanks (inComment : Bool) : List Char → List Char
  | [] => []
  | c :: cs =>
    if inComment then skipBlanks (c != '\n') cs
    else if Chars.isBlank c then skipBlanks false cs
    else if c == '#' then skipBlanks true cs
    else c :: cs

/-- Skips blanks and comments, where they do not count. -/
def skip : PatternReader Unit :=
  modify fun t => if flags.spaced then { t with rest := skipBlanks false t.rest } else t

def advance : PatternReader Unit := modify fun t => { t with rest := t.rest.drop 1 }

def step : PatternReader Unit := do
  advance
  skip flags

def accept (text : List Char) : PatternReader Bool := do
  let t ← get
  match Chars.behind? text t.rest with
  | some rest =>
    set { t with rest := rest }
    return true
  | none => return false

def takeWhile (p : Char → Bool) : PatternReader (List Char) := do
  let t ← get
  set { t with rest := t.rest.dropWhile p }
  return t.rest.takeWhile p

/-- The characters up to the first that fails `p`, without the blanks and comments that do not count. -/
def takeSteps (p : Char → Bool) : Nat → PatternReader (List Char)
  | 0 => return []
  | n + 1 => do
    match ← peek with
    | none => return []
    | some c =>
      if !p c then return []
      step flags
      let cs ← takeSteps p n
      return c :: cs

/-- The next character, which there must be. -/
def need (e : PatternError) : PatternReader Char := do
  match ← peek with
  | some c => return c
  | none => throw e

def literal (c : Char) : Pattern :=
  if flags.anyCase ∧ c.isAlpha then .set (CharSet.range c c).anyCase else .char c

def isHexDigit (c : Char) : Bool := c.isDigit || ('a' ≤ c && c ≤ 'f') || ('A' ≤ c && c ≤ 'F')

def charOfHex (e : PatternError) (digits : List Char) : PatternReader Char :=
  let value := digits.foldl
    (fun n c => 16 * n + (if c.isDigit then c.toNat - 48 else c.toUpper.toNat - 55)) 0
  if value.isValidChar then return Char.ofNat value else throw e

def hexDigits : Nat → Nat → PatternReader (List Char)
  | _, 0 => return []
  | taken, n + 1 => do
    if 0 < taken then step flags
    let c ← need .openFixed
    if !isHexDigit c then throw .badDigitFixed
    let rest ← hexDigits (taken + 1) n
    return c :: rest

/-- The digits up to the brace that closes them. -/
def bracedDigits : Nat → PatternReader (List Char)
  | 0 => throw .openBraces
  | n + 1 => do
    step flags
    let c ← need .openBraces
    if c = '\x7d' then return []
    if !isHexDigit c then throw .badDigitInBraces
    let rest ← bracedDigits n
    return c :: rest

/-- A character by its number, in braces or with `n` digits. -/
def hexChar (n : Nat) : PatternReader Pattern := do
  step flags
  if (← need .openHex) = '\x7b' then
    let digits ← bracedDigits flags (← get).rest.length
    step flags
    if digits.isEmpty then throw .emptyBraces
    return literal flags (← charOfHex .badNumberInBraces digits)
  else
    let digits ← hexDigits flags 0 n
    step flags
    return literal flags (← charOfHex .badFixed digits)

/-- A character that stands for itself behind a backslash. -/
def isEscapable (c : Char) : Bool :=
  c.toNat < 128 && !c.isAlphanum && c != '<' && c != '>'

def classOfLetter? : Char → Option CharSet
  | 'd' => some .digit
  | 's' => some .space
  | 'w' => some .word
  | 'D' => some CharSet.digit.complement
  | 'S' => some CharSet.space.complement
  | 'W' => some CharSet.word.complement
  | _ => none

def charOfLetter? : Char → Option Char
  | 'a' => some '\x07'
  | 'f' => some '\x0c'
  | 't' => some '\t'
  | 'n' => some '\n'
  | 'r' => some '\r'
  | 'v' => some '\x0b'
  | _ => none

def lookOfLetter? : Char → Option Look
  | 'A' => some .textStart
  | 'z' => some .textEnd
  | 'B' => some .noBoundary
  | '<' => some .wordStart
  | '>' => some .wordEnd
  | _ => none

def isBoundaryChar (c : Char) : Bool := c.isAlpha || c == '-'

/-- What a word boundary may carry in braces; braces with a count are left alone. -/
def boundary : PatternReader Look := do
  let before ← get
  if (← peek) = some '\x7b' then
    step flags
    if isBoundaryChar (← need .endInBraces) then
      let name ← takeSteps flags isBoundaryChar before.rest.length
      if (← peek) != some '\x7d' then throw .openWordBoundary
      advance
      match String.ofList name with
      | "start" => return .wordStart
      | "end" => return .wordEnd
      | "start-half" => return .wordStartHalf
      | "end-half" => return .wordEndHalf
      | _ => throw .unknownWordBoundary
    else
      set before
      return .boundary
  else return .boundary

def escape : PatternReader Pattern := do
  advance
  let c ← need .openEscape
  if c.isDigit then throw .backreference
  if c = 'p' ∨ c = 'P' then throw .unicodeClass
  if c = 'x' then return ← hexChar flags 2
  if c = 'u' then return ← hexChar flags 4
  if c = 'U' then return ← hexChar flags 8
  advance
  if let some s := classOfLetter? c then return .set s
  if isEscapable c then return .char c
  if let some c := charOfLetter? c then return .char c
  if c = 'b' then return .look (← boundary flags)
  if let some l := lookOfLetter? c then return .look l
  throw .unknownEscape

/-- Any character, or any but those that break a line. -/
def dot : Pattern :=
  let breaks := if flags.dotAll then [] else if flags.returns then [(10, 10), (13, 13)] else [(10, 10)]
  .set (CharSet.ofRanges breaks).complement

def lineStart : Look :=
  if flags.multiLine then (if flags.returns then .returnStart else .lineStart) else .textStart

def lineEnd : Look :=
  if flags.multiLine then (if flags.returns then .returnEnd else .lineEnd) else .textEnd

def primitive (c : Char) : PatternReader Pattern := do
  if c = '\\' then return ← escape flags
  advance
  if c = '.' then return dot flags
  if c = '^' then return .look (lineStart flags)
  if c = '$' then return .look (lineEnd flags)
  return literal flags c

/-- The pattern to be repeated, and those before it. -/
def popLast (e : PatternError) (items : List Pattern) : PatternReader (Pattern × List Pattern) :=
  match items with
  | [] => throw e
  | item :: items => return (item, items)

/-- Takes the mark of a reluctant repetition, which does not change what is matched. -/
def reluctant : PatternReader Unit := do
  if (← peek) = some '?' then advance

/-- No turn at all is the empty pattern, and a single turn is no repetition. -/
def repeated (p : Pattern) (low : Nat) (high : Option Nat) : Pattern :=
  if high = some 0 then .empty
  else if low = 1 ∧ high = some 1 then p
  else .rep p low high

/-- The items are kept last first. -/
def repeatUncounted (c : Char) (items : List Pattern) : PatternReader (List Pattern) := do
  let (item, items) ← popLast .nothingToRepeat items
  advance
  reluctant
  if c = '?' then return repeated item 0 (some 1) :: items
  if c = '*' then return repeated item 0 none :: items
  return repeated item 1 none :: items

def number : PatternReader Nat := do
  let length := (← get).rest.length
  let _ ← takeWhile Chars.isBlank
  let digits ← takeSteps flags Char.isDigit length
  let _ ← takeSteps flags Chars.isBlank length
  if digits.isEmpty then throw .noDigits
  let value : Nat := digits.foldl (fun n c => 10 * n + (c.toNat - 48)) 0
  if 0xffffffff < value then throw .badNumber
  return value

def countRange : PatternReader (Nat × Option Nat) := do
  let low ← number flags
  if (← need .openCountLow) = ',' then
    step flags
    if (← need .openCountComma) = '\x7d' then return (low, none)
    let high ← number flags
    let _ ← need .openCountRange
    return (low, some high)
  else return (low, some low)

def repeatCounted (items : List Pattern) : PatternReader (List Pattern) := do
  let (item, items) ← popLast .nothingToCount items
  step flags
  let _ ← need .openCount
  let (low, high) ← countRange flags
  if (← peek) != some '\x7d' then throw .badCount
  step flags
  reluctant
  if high.any (· < low) then throw .badCountRange
  return repeated item low high :: items

/-- The classes with a name, in any position of a bracketed class. -/
def namedClass? (name : String) : Option CharSet :=
  match name with
  | "alnum" => some (.ofRanges [(48, 57), (65, 90), (97, 122)])
  | "alpha" => some (.ofRanges [(65, 90), (97, 122)])
  | "ascii" => some (.ofRanges [(0, 127)])
  | "blank" => some (.ofRanges [(9, 9), (32, 32)])
  | "cntrl" => some (.ofRanges [(0, 31), (127, 127)])
  | "digit" => some .digit
  | "graph" => some (.range '!' '~')
  | "lower" => some (.range 'a' 'z')
  | "print" => some (.range ' ' '~')
  | "punct" => some (.ofRanges [(33, 47), (58, 64), (91, 96), (123, 126)])
  | "space" => some .space
  | "upper" => some (.range 'A' 'Z')
  | "word" => some .word
  | "xdigit" => some (.ofRanges [(48, 57), (65, 70), (97, 102)])
  | _ => none

def posixClass : PatternReader CharSet := do
  if !(← accept ['[', ':']) then throw .nestedClass
  let negated ← accept ['^']
  let name ← takeWhile (· != ':')
  if !(← accept [':', ']']) then throw .nestedClass
  match namedClass? (String.ofList name) with
  | some s => return if negated then s.complement else s
  | none => throw .nestedClass

/-- A character of a class stands for itself in its own case only; the class as a whole takes the other case. -/
def classItem (c : Char) : PatternReader Pattern := do
  if c = '\\' then return ← escape flags
  advance
  return .char c

/-- One character, class or range of a bracketed class. -/
def classRange (c : Char) : PatternReader CharSet := do
  let first ← classItem flags c
  skip flags
  let next ← need .openClassItem
  let behind ← peekBehind flags
  if next != '-' ∨ behind = some ']' ∨ behind = some '-' then
    match first with
    | .char a => return .range a a
    | .set s => return s
    | _ => throw .badClassItem
  else
    step flags
    let last ← classItem flags (← need .openClassDash)
    match first, last with
    | .char a, .char b => if a ≤ b then return .range a b else throw .badRange
    | _, _ => throw .badRangeItem

/-- The dashes that may open a class. -/
def openingDashes : Nat → PatternReader (List CharSet)
  | 0 => return []
  | n + 1 => do
    if (← peek) = some '-' then
      step flags
      let _ ← need .openClassDash
      let rest ← openingDashes n
      return .range '-' '-' :: rest
    else return []

def classItems : Nat → PatternReader (List CharSet)
  | 0 => throw .openClass
  | n + 1 => do
    skip flags
    let c ← need .openClass
    let second ← peekSecond
    if c = ']' then
      advance
      return []
    if c = '&' ∧ second = some '&' then throw .classIntersection
    if c = '-' ∧ second = some '-' then throw .classDifference
    if c = '~' ∧ second = some '~' then throw .classSymmetricDifference
    let item ← if c = '[' then posixClass else classRange flags c
    let rest ← classItems n
    return item :: rest

/-- What may open a class without its usual meaning: dashes, or a closing bracket. -/
def openingItems (length : Nat) : PatternReader (List CharSet) := do
  let dashes ← openingDashes flags length
  if dashes.isEmpty && (← peek) = some ']' then
    step flags
    let _ ← need .openClassBracket
    return [.range ']' ']']
  return dashes

/-- The other case is added before the class is negated. -/
def bracketed : PatternReader Pattern := do
  let length := (← get).rest.length
  step flags
  let negated := (← need .openClass) = '^'
  if negated then step flags
  let _ ← need .openClassNegation
  let opening ← openingItems flags length
  let items ← classItems flags length
  let whole := CharSet.ofRanges ((opening ++ items).flatMap (·.ranges))
  let whole := if flags.anyCase then whole.anyCase else whole
  return .set (if negated then whole.complement else whole)

/-- Which repetitions are reluctant, and the flag for all scripts, make no difference to what is matched. -/
def setFlag (on : Bool) (c : Char) (flags : PatternFlags) : PatternReader PatternFlags :=
  match c with
  | 'i' => return { flags with anyCase := on }
  | 'm' => return { flags with multiLine := on }
  | 's' => return { flags with dotAll := on }
  | 'R' => return { flags with returns := on }
  | 'x' => return { flags with spaced := on }
  | 'U' => return flags
  | 'u' => return flags
  | _ => throw .unknownFlag

/-- Flags up to the colon or the parenthesis that ends them; those behind a dash are turned off. -/
def inlineFlags (seen : List Char) (negate dash : Bool) : Nat → PatternFlags → PatternReader PatternFlags
  | 0, _ => throw .openFlags
  | n + 1, flags => do
    let c ← need .openFlags
    if c = ':' ∨ c = ')' then
      if dash then throw .danglingNegation
      return flags
    advance
    if c = '-' then
      if negate then throw .repeatedNegation
      inlineFlags seen true true n flags
    else
      let flags ← setFlag (!negate) c flags
      if seen.contains c then throw .repeatedFlag
      inlineFlags (c :: seen) negate false n flags

def isNameStart (c : Char) : Bool := c == '_' || Chars.isLetter c

def isNameChar (c : Char) : Bool :=
  c == '_' || c == '.' || c == '[' || c == ']' || Chars.isLetter c || Chars.isNumeral c

def groupName : PatternReader String := do
  let first ← need .missingGroupName
  if first != '>' && !isNameStart first then throw .badGroupName
  let name := String.ofList (← takeWhile isNameChar)
  if (← need .openGroupName) != '>' then throw .badGroupName
  advance
  if name.isEmpty then throw .emptyGroupName
  let t ← get
  if t.names.contains name then throw .repeatedGroupName
  set { t with names := name :: t.names }
  return name

def groupNumber : PatternReader Nat :=
  modifyGet fun t => (t.groups + 1, { t with groups := t.groups + 1 })

def isLookAround : PatternReader Bool := do
  let rest := (← get).rest
  return [['?', '='], ['?', '!'], ['?', '<', '='], ['?', '<', '!']].any (·.isPrefixOf rest)

/-- A group, or the flags that hold from here on. -/
def group (inner : PatternFlags → PatternReader Pattern) : PatternReader (PatternFlags ⊕ Pattern) := do
  step flags
  if ← isLookAround then throw .lookAround
  let isNamed := [['?', 'P', '<'], ['?', '<']].any (·.isPrefixOf (← get).rest)
  if isNamed then
    let number ← groupNumber
    let _ ← takeWhile (· != '<')
    advance
    let name ← groupName
    return .inr (.group number (some name) (← inner flags))
  if ← accept ['?'] then
    let first ← need .openQuestion
    let new ← inlineFlags [] false false (← get).rest.length flags
    if (← peek) = some ')' then
      if first = ')' then throw .emptyFlags
      return .inl new
    advance
    return .inr (← inner new)
  let number ← groupNumber
  return .inr (.group number none (← inner flags))

/-- One pattern after another; they are kept last first. -/
def sequence (items : List Pattern) : Pattern :=
  match items with
  | [] => .empty
  | [item] => item
  | items => .seq items.reverse

/-- The patterns kept so far, last first, with the items of the last one. -/
def finish (done items : List Pattern) : Pattern :=
  match done with
  | [] => sequence items
  | done => .alt (sequence items :: done).reverse

/-- One alternative after another. `isOpen` tells whether a group is open that a parenthesis may close. -/
def alternatives (isOpen : Bool) (inner : PatternFlags → PatternReader Pattern) :
    Nat → PatternFlags → List Pattern → List Pattern → PatternReader Pattern
  | 0, _, done, items => return finish done items
  | n + 1, flags, done, items => do
    skip flags
    match ← peek with
    | none => return finish done items
    | some ')' => if isOpen then return finish done items else throw .unopenedGroup
    | some '|' =>
      advance
      alternatives isOpen inner n flags (sequence items :: done) []
    | some '(' =>
      let made ← group flags inner
      if (← peek) != some ')' then throw .openGroup
      advance
      match made with
      | .inl flags => alternatives isOpen inner n flags done items
      | .inr item => alternatives isOpen inner n flags done (item :: items)
    | some '[' =>
      let item ← bracketed flags
      alternatives isOpen inner n flags done (item :: items)
    | some '\x7b' => alternatives isOpen inner n flags done (← repeatCounted flags items)
    | some c =>
      if c = '?' ∨ c = '*' ∨ c = '+' then
        alternatives isOpen inner n flags done (← repeatUncounted c items)
      else
        let item ← primitive flags c
        alternatives isOpen inner n flags done (item :: items)

/-- What stands in a group, with at most `depth` groups inside one another. -/
def groupBody : Nat → PatternFlags → PatternReader Pattern
  | 0, _ => throw .tooDeep
  | depth + 1, flags => do
    let length := (← get).rest.length
    alternatives true (groupBody depth) (length + 1) flags [] []

def whole : PatternReader Pattern := do
  let length := (← get).rest.length
  alternatives false (groupBody Pattern.greatestDepth) (length + 1) {} [] []

end PatternReader

def Pattern.parse (text : String) : Except PatternError Pattern := do
  let (p, _) ← PatternReader.whole ⟨text.toList, 0, []⟩
  if Pattern.greatestDepth < p.depth then throw .tooDeep
  if Pattern.greatestSize < p.size then throw .tooLarge
  return p

end Morphology
