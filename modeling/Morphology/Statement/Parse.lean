import Morphology.Statement.Basic
import Morphology.Statement.Token

/-! Statements read from lines. A line starting with `has` states an attribute, with its name up to the first
colon; any other line states a relation. Starred text before a name quantifies it, starred text behind a
value is its unit. -/

namespace Morphology.Statement

/-- The error of a line in which something else was expected next. -/
def expecting (what : Expected) (stop : Span) : List Token → ParseError
  | [] => ⟨.endOfLine what, stop, ""⟩
  | t :: _ => ⟨.unexpected what t.kind, t.span, ""⟩

/-- The next token, if it is of this kind. -/
def take (kind : TokenKind) : List Token → Option String × List Token
  | [] => (none, [])
  | t :: ts => if t.kind = kind then (some t.text, ts) else (none, t :: ts)

def takeWords : List Token → List String × List Token
  | [] => ([], [])
  | t :: ts =>
    if t.kind = .word then
      let (texts, rest) := takeWords ts
      (t.text :: texts, rest)
    else ([], t :: ts)

/-- A star quantifies the subject only where the relation itself follows. -/
def takeSubject : List Token → Option String × List Token
  | s :: t :: ts =>
    if s.kind = .star ∧ (t.kind = .adverb ∨ t.kind = .name) then (some s.text, t :: ts)
    else (none, s :: t :: ts)
  | ts => (none, ts)

def expectName (stop : Span) (ts : List Token) : Except ParseError (String × List Token) :=
  match take .name ts with
  | (some name, rest) => .ok (name, rest)
  | (none, _) => .error (expecting .relationName stop ts)

/-- One word or more, joined by single spaces. -/
def expectWords (what : Expected) (stop : Span) (ts : List Token) :
    Except ParseError (String × List Token) :=
  match takeWords ts with
  | ([], rest) => .error (expecting what stop rest)
  | (texts, rest) => .ok (Text.join " " texts, rest)

def expectEnd (stop : Span) : List Token → Except ParseError Unit
  | [] => .ok ()
  | t :: ts => .error (expecting .endOfLine stop (t :: ts))

def relationOf (ts : List Token) (stop : Span) : Except ParseError RelationStatement := do
  let (subjectQuantifier, ts) := takeSubject ts
  let (adverb, ts) := take .adverb ts
  let (name, ts) ← expectName stop ts
  let (targetQuantifier, ts) := take .star ts
  let (targetQualifier, ts) := take .qualifier ts
  let (targetName, ts) ← expectWords .targetName stop ts
  let (modality, ts) := take .modality ts
  expectEnd stop ts
  return { subjectQuantifier, adverb, name, targetQuantifier, targetQualifier, targetName, modality }

def attributeOf (name : String) (ts : List Token) (stop : Span) :
    Except ParseError AttributeStatement := do
  let (adverb, ts) := take .adverb ts
  let (value, ts) ← expectWords .attributeValue stop ts
  let (unit, ts) := take .star ts
  let (modality, ts) := take .modality ts
  expectEnd stop ts
  return { name, adverb, value, unit, modality }

/-- Just past the last character that is not blank, at the last byte. -/
def endSpan (text : List Char) (line column : Nat) : Span :=
  ⟨Place.utf8Length text, Place.utf8Length text, line, column + (Chars.trimEnd text).length⟩

def parseRelation (body : List Char) (line column : Nat) : Except ParseError Statement := do
  let ts ← Token.tokens body line column
  let r ← relationOf ts (endSpan body line column)
  return .relation r

/-- What follows `has`, where a line starts with that word. -/
def afterHas? : List Char → Option (List Char)
  | 'h' :: 'a' :: 's' :: c :: cs => if Chars.isBlank c then some (c :: cs) else none
  | _ => none

def isNameChar (c : Char) : Bool :=
  c != '*' && c != '<' && c != '>' && c != '[' && c != ']'

/-- `rest` follows `has`, which stands at `column`. -/
def parseAttribute (rest : List Char) (line column : Nat) : Except ParseError Statement :=
  let stop : Place := (Place.mk 0 column).after ('h' :: 'a' :: 's' :: rest)
  match Chars.splitFirst [':'] rest with
  | none => .error ⟨.endOfLine .colon, stop.span line [], ""⟩
  | some (before, value) =>
    let name := Chars.collapse before
    if name = [] ∨ name.all isNameChar = false then
      .error ⟨.badAttributeName (String.ofList (Chars.trim before)), ⟨3, 3, line, column + 3⟩, ""⟩
    else do
      let valueColumn := column + 3 + before.length + 1
      let ts ← Token.tokens value line valueColumn
      let a ← attributeOf (String.ofList name) ts (endSpan value line valueColumn)
      return .attr a

def parseChars (cs : List Char) (line : Nat) : Except ParseError Statement :=
  let body := Chars.trimStart cs
  let column := cs.length - body.length + 1
  if body = [] then .error ⟨.endOfLine .statement, ⟨0, Place.utf8Length cs, line, column⟩, ""⟩
  else
    match afterHas? body with
    | some rest => parseAttribute rest line column
    | none => parseRelation body line column

/-- The statement on a line; an error keeps the line. -/
def parse (raw : String) (line : Nat) : Except ParseError Statement :=
  match parseChars raw.toList line with
  | .ok statement => .ok statement
  | .error e => .error { e with raw := raw }

end Morphology.Statement
