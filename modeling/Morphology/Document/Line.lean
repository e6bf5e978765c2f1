import Morphology.Text.Split

/-! The lines that give a document its shape: node headers, and the fences around statements. A header may end
in a qualifier between double stars; a fence may carry the label of a morph. -/

namespace Morphology.Line

open Chars

def isPad (c : Char) : Bool := c == ' ' || c == '\t'

/-- What may follow a header's name: padding only, or padding and a qualifier. -/
def headerTail? (cs : List Char) : Option (Option (List Char)) :=
  if cs.all isPad then some none
  else
    match cs with
    | [] => none
    | c :: rest =>
      if isPad c then
        match behind? ['*', '*'] (rest.dropWhile isPad) with
        | none => none
        | some inner =>
          match before? ['*', '*'] (dropEndWhile isPad inner) with
          | none => none
          | some qualifier => if qualifier = [] then none else some (some qualifier)
      else none

/-- The shortest name that leaves a proper tail, and the qualifier in the tail. -/
def splitHeader? : List Char → Option (List Char × Option (List Char))
  | [] => none
  | c :: rest =>
    match headerTail? rest with
    | some qualifier => some ([c], qualifier)
    | none => (splitHeader? rest).map fun (name, qualifier) => (c :: name, qualifier)

def header? : List Char → Option (List Char × Option (List Char))
  | '#' :: c :: cs =>
    if isPad c then
      match splitHeader? (cs.dropWhile isPad) with
      | none => none
      | some (name, qualifier) =>
        if collapse name = [] then none else some (collapse name, qualifier.map collapse)
    else none
  | _ => none

/-- A label may stand between angle brackets. -/
def unbracket (label : List Char) : List Char :=
  ((behind? ['<'] label).bind (before? ['>'])).getD label

/-- The label of a line that opens a fence; it may have none. -/
def fenceOpening? (cs : List Char) : Option (Option (List Char)) :=
  match behind? [':', ':', ':'] cs with
  | none => none
  | some rest =>
    match behind? ['c', 'n', 'l'] (rest.dropWhile isPad) with
    | none => none
    | some [] => some none
    | some (c :: rest) =>
      if isPad c then
        let label := collapse (unbracket (trim (c :: rest)))
        some (if label = [] then none else some label)
      else none

def isFenceClosing (cs : List Char) : Bool :=
  match behind? [':', ':', ':'] cs with
  | none => false
  | some rest => rest.all isPad

end Morphology.Line
