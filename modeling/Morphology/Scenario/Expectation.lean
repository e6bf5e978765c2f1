import Morphology.Edit.Basic
import Morphology.Pattern.Parse
import Morphology.Report
import Morphology.Text.Quoted

/-! What is expected of a step, held against what it did. The first thing that is not as expected is told. -/

namespace Morphology

/-- What a step did, and what the session was like after it. -/
structure StepOutcome where
  report : Report := {}
  deleted : Deleted := {}
  nodes : Nat
  morphs : Nat
  relations : Nat
  attributes : Nat
  transitions : Nat
  score : Nat
  document : String
  deriving DecidableEq, Repr

structure Expectation where
  applied : Option Nat := none
  created : Option Nat := none
  parseErrors : Option Nat := none
  validationErrors : Option Nat := none
  referentialErrors : Option Nat := none
  clean : Bool := false
  /-- The lines of all errors, in the order of the report. -/
  errorLines : Option (List Nat) := none
  deletedEdges : Option Nat := none
  deletedMorphs : Option Nat := none
  nodes : Option Nat := none
  morphs : Option Nat := none
  relations : Option Nat := none
  attributes : Option Nat := none
  transitions : Option Nat := none
  score : Option Nat := none
  /-- Texts that the exported document contains. -/
  exports : List String := []
  /-- A text that the error of the step contains. -/
  error : Option String := none
  /-- A pattern that the error of the step matches. -/
  errorPattern : Option String := none
  deriving DecidableEq, Repr

namespace Expectation

def bracketed (items : List String) : String := "[" ++ Text.join ", " items ++ "]"

/-- The complaint about an error that was expected and did not come so. -/
def checkError (relation expected : String) (isExpected : String → Bool)
    (result : Except String StepOutcome) : Except String Unit :=
  let start := "expected error " ++ relation ++ " '" ++ expected ++ "', "
  match result with
  | .ok _ => .error (start ++ "but step succeeded")
  | .error message => if isExpected message then .ok () else .error (start ++ "got: " ++ message)

def checkCount (what : String) (expected : Option Nat) (actual : Nat) : Except String Unit :=
  match expected with
  | none => .ok ()
  | some n =>
    if n = actual then .ok ()
    else .error ("expected " ++ Text.ofNat n ++ " " ++ what ++ ", got " ++ Text.ofNat actual)

def checkLines (expected : Option (List Nat)) (actual : List Nat) : Except String Unit :=
  match expected with
  | none => .ok ()
  | some ls =>
    if ls = actual then .ok ()
    else .error ("expected errors on lines " ++ bracketed (ls.map Text.ofNat) ++ ", got " ++
      bracketed (actual.map Text.ofNat))

def checkScore (expected : Option Nat) (actual : Nat) : Except String Unit :=
  match expected with
  | none => .ok ()
  | some n =>
    if n = actual then .ok ()
    else .error ("expected score " ++ Text.ofNat n ++ ", got " ++ Text.ofNat actual)

def checkExports (document : String) : List String → Except String Unit
  | [] => .ok ()
  | part :: parts =>
    if Text.contains part document then checkExports document parts
    else .error ("export does not contain " ++ Text.quoted part ++ ":\n" ++ document)

variable (x : Expectation)

def checkReport (r : Report) : Except String Unit := do
  if x.clean && !r.isClean then
    throw ("expected a clean report, got: " ++ bracketed (r.errorTexts.map Text.quoted))
  checkCount "applied statement(s)" x.applied r.applied.length
  checkCount "new edge(s)" x.created r.created
  checkCount "parse error(s)" x.parseErrors r.unread.length
  checkCount "validation error(s)" x.validationErrors r.ungrounded.length
  checkCount "referential error(s)" x.referentialErrors r.refused.length
  checkLines x.errorLines r.errorLines

def checkState (o : StepOutcome) : Except String Unit := do
  checkCount "deleted edge(s)" x.deletedEdges o.deleted.edges.length
  checkCount "deleted morph(s)" x.deletedMorphs o.deleted.morphs.length
  checkCount "node(s)" x.nodes o.nodes
  checkCount "morph(s)" x.morphs o.morphs
  checkCount "relation(s)" x.relations o.relations
  checkCount "attribute(s)" x.attributes o.attributes
  checkCount "transition(s)" x.transitions o.transitions
  checkScore x.score o.score
  checkExports o.document x.exports

/-- An expected error settles the matter; a pattern counts only where no text is given. -/
def verify (result : Except String StepOutcome) : Except String Unit :=
  match x.error, x.errorPattern with
  | some part, _ => checkError "containing" part (Text.contains part) result
  | none, some pattern =>
    match Pattern.parse pattern with
    | .error e => .error ("invalid regex pattern: " ++ e.message)
    | .ok p => checkError "matching" pattern p.matchesIn result
  | none, none =>
    match result with
    | .error message => .error ("step failed: " ++ message)
    | .ok o => do
      x.checkReport o.report
      x.checkState o

end Expectation

end Morphology
