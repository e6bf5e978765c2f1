import Morphology.Statement.Parse

/-! Documents: a preamble, then one block for each node header. A block holds prose and fenced statements. -/

namespace Morphology

inductive FenceLine where
  | statement (line : Nat) (statement : Statement)
  | invalid (line : Nat) (raw : String)
  | blank
  deriving DecidableEq, Repr

structure Fence where
  /-- The morph that the statements are about; the basic one if there is no label. -/
  label : Option String
  line : Nat
  lines : List FenceLine
  closed : Bool
  deriving DecidableEq, Repr

inductive Segment where
  | prose (text : String)
  | fence (fence : Fence)
  deriving DecidableEq, Repr

structure Block where
  name : String
  qualifier : Option String
  line : Nat
  segments : List Segment
  errors : List ParseError := []
  deriving DecidableEq, Repr

structure Document where
  preamble : String
  blocks : List Block
  deriving DecidableEq, Repr

namespace Fence

def statements (fence : Fence) : List (Nat × Statement) :=
  fence.lines.filterMap fun
    | .statement line s => some (line, s)
    | _ => none

end Fence

namespace Block

def fences (block : Block) : List Fence :=
  block.segments.filterMap fun
    | .fence fence => some fence
    | .prose _ => none

def statements (block : Block) : List (Option String × Nat × Statement) :=
  block.fences.flatMap fun fence => fence.statements.map fun s => (fence.label, s)

end Block

namespace Document

def empty : Document := ⟨"", []⟩

def statementCount (document : Document) : Nat :=
  (document.blocks.flatMap fun block => block.statements).length

def errors (document : Document) : List ParseError :=
  document.blocks.flatMap (·.errors)

end Document

end Morphology
