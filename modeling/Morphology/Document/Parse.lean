import Morphology.Document.Basic
import Morphology.Document.Line

/-! Documents read from text. Headers cut the text into blocks, whatever stands between them; within a block
fence lines cut statements from prose. Reading never fails: a line that is no statement is kept as it is
and reported. Taking the lines one at a time gives the same document: `Document.build_eq_parse`. -/

namespace Morphology

structure SourceLine where
  number : Nat
  text : String
  deriving DecidableEq, Repr

namespace SourceLine

def header? (l : SourceLine) : Option (List Char × Option (List Char)) :=
  Line.header? l.text.toList

def isHeader (l : SourceLine) : Bool := l.header?.isSome

def opensFence (l : SourceLine) : Bool := (Line.fenceOpening? l.text.toList).isSome

def closesFence (l : SourceLine) : Bool := Line.isFenceClosing l.text.toList

def fenceLine (l : SourceLine) : FenceLine :=
  if Text.isBlank l.text then .blank
  else
    match Statement.parse l.text l.number with
    | .ok s => .statement l.number s
    | .error _ => .invalid l.number l.text

/-- The lines of a text; a carriage return at the end of one is no part of it. -/
def ofText (text : String) : List SourceLine :=
  ((Chars.lines text.toList).zipIdx 1).map fun (line, number) =>
    ⟨number, String.ofList (Chars.dropReturn line)⟩

def prose (ls : List SourceLine) : String :=
  Text.concat (ls.map fun l => l.text ++ "\n")

end SourceLine

namespace Document

open SourceLine

theorem length_dropWhile_lt (p : SourceLine → Bool) (l : SourceLine) (rest : List SourceLine) :
    (rest.dropWhile p).length < (l :: rest).length :=
  Nat.lt_succ_of_le (List.dropWhile_sublist p).length_le

def segmentsOf (ls : List SourceLine) : List Segment :=
  match ls with
  | [] => []
  | l :: rest =>
    match Line.fenceOpening? l.text.toList with
    | some label =>
      let inner := rest.takeWhile fun m => !m.closesFence
      let behind := rest.dropWhile fun m => !m.closesFence
      .fence ⟨label.map String.ofList, l.number, inner.map fenceLine, !behind.isEmpty⟩ ::
        segmentsOf (behind.drop 1)
    | none =>
      let more := rest.takeWhile fun m => !m.opensFence
      .prose (prose (l :: more)) :: segmentsOf (rest.dropWhile fun m => !m.opensFence)
termination_by ls.length
decreasing_by
  · have := length_dropWhile_lt (fun m => !m.closesFence) l rest
    simp only [List.length_drop]
    omega
  · exact length_dropWhile_lt _ l rest

def lineError? : FenceLine → Option ParseError
  | .invalid line raw =>
    match Statement.parse raw line with
    | .ok _ => none
    | .error e => some e
  | _ => none

def fenceText (label : Option String) : String :=
  match label with
  | some label => ":::cnl " ++ label
  | none => ":::cnl"

/-- The error of a fence still open where line `stop` would begin something else. -/
def unclosedError (stop : Nat) (fence : Fence) : ParseError :=
  ⟨.unclosedFence fence.line stop, ⟨0, 0, fence.line, 1⟩, fenceText fence.label⟩

def blockOf (line : Nat) (name : List Char) (qualifier : Option (List Char)) (body : List SourceLine)
    (stop : Nat) : Block :=
  let segments := segmentsOf body
  let block : Block := ⟨String.ofList name, qualifier.map String.ofList, line, segments, []⟩
  { block with
    errors := (block.fences.flatMap fun fence => fence.lines.filterMap lineError?) ++
      (block.fences.filter fun fence => !fence.closed).map (unclosedError stop) }

/-- The blocks of lines that start with a header; `stop` is the number behind the last line. -/
def blocksOf (stop : Nat) (ls : List SourceLine) : List Block :=
  match ls with
  | [] => []
  | l :: rest =>
    let body := rest.takeWhile fun m => !m.isHeader
    let next := rest.dropWhile fun m => !m.isHeader
    match l.header? with
    | some (name, qualifier) =>
      blockOf l.number name qualifier body ((next.head?.map (·.number)).getD stop) :: blocksOf stop next
    | none => blocksOf stop next
termination_by ls.length
decreasing_by
  · exact length_dropWhile_lt _ l rest
  · exact length_dropWhile_lt _ l rest

def parse (text : String) : Document :=
  let ls := SourceLine.ofText text
  { preamble := prose (ls.takeWhile fun l => !l.isHeader)
    blocks := blocksOf (ls.length + 1) (ls.dropWhile fun l => !l.isHeader) }

end Document

end Morphology
