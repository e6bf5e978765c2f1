import Morphology.Text.HiddenData
import Morphology.Text.Lowercase

/-! Texts between quotation marks: as they appear in messages, and as JSON strings. -/

namespace Morphology.Chars

def hexDigits (n : Nat) : List Char :=
  Nat.toDigits 16 n

/-- Characters that do not show, or attach to the one before, are written by their number. -/
def quoteChar (c : Char) : List Char :=
  match c with
  | '\x00' => ['\\', '0']
  | '\t' => ['\\', 't']
  | '\r' => ['\\', 'r']
  | '\n' => ['\\', 'n']
  | '"' => ['\\', '"']
  | '\\' => ['\\', '\\']
  | _ =>
    if inRanges Text.hiddenRanges c then ['\\', 'u', '\x7b'] ++ hexDigits c.toNat ++ ['\x7d'] else [c]

def padHex (n : Nat) : List Char :=
  let digits := hexDigits n
  List.replicate (4 - digits.length) '0' ++ digits

/-- JSON escapes the quotation mark, the backslash and the control characters below the space. -/
def jsonChar (c : Char) : List Char :=
  match c with
  | '"' => ['\\', '"']
  | '\\' => ['\\', '\\']
  | '\n' => ['\\', 'n']
  | '\r' => ['\\', 'r']
  | '\t' => ['\\', 't']
  | '\x08' => ['\\', 'b']
  | '\x0c' => ['\\', 'f']
  | _ => if c.toNat < 32 then ['\\', 'u'] ++ padHex c.toNat else [c]

end Morphology.Chars

namespace Morphology.Text

def quoted (s : String) : String :=
  String.ofList ('"' :: s.toList.flatMap Chars.quoteChar ++ ['"'])

def jsonString (s : String) : String :=
  String.ofList ('"' :: s.toList.flatMap Chars.jsonChar ++ ['"'])

end Morphology.Text
