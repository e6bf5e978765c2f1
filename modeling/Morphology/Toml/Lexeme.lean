import Morphology.Toml.Reader

/-! The lexemes of TOML: blanks, comments and line breaks, the four kinds of strings, and keys. -/

namespace Morphology.Toml

open Reader

def isSpace (c : Char) : Bool := c == ' ' || c == '\t'

/-- A character that may stand in a comment or, but for quotes, in a string on one line. -/
def isText (c : Char) : Bool := c == '\t' || (32 ≤ c.toNat && c.toNat != 127)

def spaces : Reader Unit := do
  let _ ← takeWhile isSpace

def lineBreak : Reader Bool := do
  if ← accept ['\n'] then return true else accept ['\r', '\n']

def comment : Reader Unit := do
  if ← accept ['#'] then
    let _ ← takeWhile isText

/-- The end of a line, with blanks and a comment before it. -/
def endOfLine : Reader Unit := do
  spaces
  comment
  if ← lineBreak then return ()
  else
    match ← peek with
    | none => return ()
    | some _ => failure

/-- Blanks, comments and line breaks, as they may stand between the items of a list. -/
def skipLines : Reader Unit := do
  let _ ← many do
    spaces
    if ← ahead ['#'] then
      comment
      if ← lineBreak then return some () else failure
    else if ← lineBreak then return some ()
    else return none

def hexValue (cs : List Char) : Nat :=
  cs.foldl (fun n c => 16 * n + (if c.isDigit then c.toNat - 48 else c.toUpper.toNat - 55)) 0

def isHexDigit (c : Char) : Bool :=
  c.isDigit || ('a' ≤ c && c ≤ 'f') || ('A' ≤ c && c ≤ 'F')

/-- The character with the number that the next `n` digits give. -/
def numberedChar (n : Nat) : Reader Char := do
  let digits ← takeCount n isHexDigit
  let value := hexValue digits
  if value.isValidChar then return Char.ofNat value else failure

def escaped : Reader Char := do
  match ← next with
  | 'b' => return '\x08'
  | 't' => return '\t'
  | 'n' => return '\n'
  | 'f' => return '\x0c'
  | 'r' => return '\r'
  | '"' => return '"'
  | '\\' => return '\\'
  | 'u' => numberedChar 4
  | 'U' => numberedChar 8
  | _ => failure

/-- One character of a text in double quotes, nothing at the closing quote. -/
def basicChar : Reader (Option Char) := do
  match ← next with
  | '"' => return none
  | '\\' => some <$> escaped
  | c => if isText c then return some c else failure

def basicString : Reader (List Char) := do
  expect ['"']
  many basicChar

def literalString : Reader (List Char) := do
  expect ['\'']
  let body ← takeWhile fun c => isText c && c != '\''
  expect ['\'']
  return body

/-- Quotes inside a long string, up to two in a row; nothing at its closing quotes. -/
def innerQuotes (quote : Char) : Reader (Option (List Char)) := do
  if ← ahead [quote, quote, quote] then return none
  else some <$> takeWhile (· == quote)

def spaceOrBreak : Reader (Option Unit) := do
  if ← lineBreak then return some ()
  if ← accept [' '] then return some ()
  if ← accept ['\t'] then return some ()
  return none

/-- Takes a backslash at the end of a line, with the break and all blanks behind it. -/
def foldedBreak : Reader Bool := fun cs =>
  match cs with
  | '\\' :: rest =>
    match (spaces *> lineBreak) rest with
    | some (true, rest) => ((fun _ => true) <$> many spaceOrBreak) rest
    | _ => some (false, cs)
  | _ => some (false, cs)

def longText (escapes : Bool) : Reader (Option (List Char)) := do
  if ← lineBreak then return some ['\n']
  let c ← next
  if escapes && c == '\\' then
    let c ← escaped
    return some [c]
  if isText c then return some [c] else failure

def longPart (quote : Char) (escapes : Bool) : Reader (Option (List Char)) := do
  if ← ahead [quote] then innerQuotes quote
  else if ← (if escapes then foldedBreak else pure false) then return some []
  else longText escapes

/-- A string between tripled quotes. A line break behind the opening quotes is no part of it, and up to two
quotes may stand before the closing ones. -/
def longString (quote : Char) (escapes : Bool) : Reader (List Char) := do
  expect [quote, quote, quote]
  let _ ← lineBreak
  let parts ← many (longPart quote escapes)
  let closing ← takeWhile (· == quote)
  if 5 < closing.length then failure
  return parts.flatten ++ closing.drop 3

def anyString : Reader (List Char) := do
  if ← ahead ['"', '"', '"'] then longString '"' true
  else if ← ahead ['\'', '\'', '\''] then longString '\'' false
  else if ← ahead ['"'] then basicString
  else literalString

def isKeyChar (c : Char) : Bool :=
  c.isAlphanum || c == '_' || c == '-'

def simpleKey : Reader String := do
  if ← ahead ['"'] then String.ofList <$> basicString
  else if ← ahead ['\''] then String.ofList <$> literalString
  else String.ofList <$> takeSome isKeyChar

def furtherKey : Reader (Option String) := do
  spaces
  if ← accept ['.'] then
    spaces
    some <$> simpleKey
  else return none

/-- The greatest number of parts in a key, and of values inside one another. -/
def greatestDepth : Nat := 79

/-- The parts of a dotted key, with the blanks around it. -/
def key : Reader (List String) := do
  spaces
  let first ← simpleKey
  let rest ← many furtherKey
  if greatestDepth < rest.length + 1 then failure
  return first :: rest

end Morphology.Toml
