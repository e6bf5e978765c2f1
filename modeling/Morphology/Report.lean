import Morphology.Grounding
import Morphology.Refusal
import Morphology.Statement.Error

/-! What became of the statements of a document. Each stands in exactly one of the lists. -/

namespace Morphology

/-- A statement that is in the graph now. -/
structure Applied where
  /-- The display name of the node it was written under. -/
  block : String
  line : Nat
  edge : EdgeRef
  created : Bool
  deriving DecidableEq, Repr

/-- A statement that fits the schema, but that the graph refused. -/
structure Refused where
  block : String
  line : Nat
  error : EditError
  deriving DecidableEq, Repr

def Refused.message (r : Refused) : String :=
  "line " ++ Text.ofNat r.line ++ " in '" ++ r.block ++ "': " ++ r.error.message

structure Report where
  applied : List Applied := []
  unread : List ParseError := []
  ungrounded : List GroundingError := []
  refused : List Refused := []
  deriving DecidableEq, Repr

namespace Report

def append (r s : Report) : Report :=
  ⟨r.applied ++ s.applied, r.unread ++ s.unread, r.ungrounded ++ s.ungrounded, r.refused ++ s.refused⟩

instance : Append Report := ⟨append⟩

variable (r : Report)

def created : Nat := r.applied.countP (·.created)

def errorCount : Nat := r.unread.length + r.ungrounded.length + r.refused.length

def isClean : Bool := r.errorCount == 0

/-- One text for each error, by kind and then by place. -/
def errorTexts : List String :=
  r.unread.map (·.display) ++ r.ungrounded.map (·.message) ++ r.refused.map (·.message)

/-- The document lines of the errors, in the order of their texts. -/
def errorLines : List Nat :=
  r.unread.map (·.span.line) ++ r.ungrounded.map (·.line) ++ r.refused.map (·.line)

def summary : String :=
  Text.ofNat r.applied.length ++ " applied (" ++ Text.ofNat r.created ++ " new), " ++
    Text.ofNat r.unread.length ++ " parse error(s), " ++ Text.ofNat r.ungrounded.length ++
    " validation error(s), " ++ Text.ofNat r.refused.length ++ " referential error(s)"

/-- The summary, and every error on a line of its own. -/
def text : String :=
  r.summary ++ Text.concat (r.errorTexts.map fun line => "\n  " ++ line)

end Report

end Morphology
