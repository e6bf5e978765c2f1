import Morphology.Text.Split

/-! What can be wrong with a line, where it is, and how it is told. -/

namespace Morphology

inductive TokenKind where
  | adverb
  | qualifier
  | star
  | name
  | modality
  | word
  deriving DecidableEq, Repr

namespace TokenKind

def text : TokenKind → String
  | adverb => "adverb"
  | qualifier => "qualifier"
  | star => "quantifier or unit"
  | name => "relation name"
  | modality => "modality"
  | word => "word"

def opening : TokenKind → List Char
  | adverb => ['+', '+']
  | qualifier => ['*', '*']
  | star => ['*']
  | name => ['<']
  | modality => ['[']
  | word => []

def closing : TokenKind → List Char
  | adverb => ['+', '+']
  | qualifier => ['*', '*']
  | star => ['*']
  | name => ['>']
  | modality => [']']
  | word => []

end TokenKind

/-- Byte offsets into the text that was read, and line and column in the document, both from 1. -/
structure Span where
  start : Nat
  stop : Nat
  line : Nat
  column : Nat
  deriving DecidableEq, Repr

/-- What a statement could have gone on with. -/
inductive Expected where
  | statement
  | colon
  | relationName
  | targetName
  | attributeValue
  | endOfLine
  deriving DecidableEq, Repr

def Expected.text : Expected → String
  | statement => "statement"
  | colon => "':' after attribute name"
  | relationName => "relation name in <...>"
  | targetName => "target node name"
  | attributeValue => "attribute value"
  | endOfLine => "end of line"

inductive ParseFault where
  | strayCharacter (c : Char)
  | unterminated (kind : TokenKind)
  | emptyToken (kind : TokenKind)
  | endOfLine (expected : Expected)
  | unexpected (expected : Expected) (found : TokenKind)
  | badAttributeName (found : String)
  | unclosedFence (opened before : Nat)
  deriving DecidableEq, Repr

namespace ParseFault

def message : ParseFault → String
  | strayCharacter c => "unexpected character '" ++ String.ofList [c] ++ "'"
  | unterminated kind =>
    "unterminated " ++ kind.text ++ ", missing '" ++ String.ofList kind.closing ++ "'"
  | emptyToken kind => "empty " ++ kind.text
  | endOfLine expected => "unexpected end of line, expected " ++ expected.text
  | unexpected expected found => "expected " ++ expected.text ++ ", found " ++ found.text
  | badAttributeName _ => "expected attribute name before ':'"
  | unclosedFence opened before =>
    "notation fence opened at line " ++ Text.ofNat opened ++ " is never closed (before line " ++
      Text.ofNat before ++ ")"

def expected? : ParseFault → Option String
  | endOfLine expected => some expected.text
  | unexpected expected _ => some expected.text
  | _ => none

def found? : ParseFault → Option String
  | strayCharacter c => some (String.ofList [c])
  | endOfLine _ => some Expected.endOfLine.text
  | unexpected _ found => some found.text
  | badAttributeName found => some found
  | _ => none

end ParseFault

structure ParseError where
  fault : ParseFault
  span : Span
  /-- The whole line, as far as one is known. -/
  raw : String := ""
  deriving DecidableEq, Repr

namespace ParseError

def display (e : ParseError) : String :=
  "Parse error at line " ++ Text.ofNat e.span.line ++ ", column " ++ Text.ofNat e.span.column ++ ": " ++
    e.fault.message

end ParseError

end Morphology
