import Morphology.Edit.Basic
import Morphology.Grounding
import Morphology.Settings
import Morphology.Transition.Basic

/-! Sessions: a graph, its schema, and the settings that govern both. -/

namespace Morphology

structure Session where
  settings : Settings
  schema : Schema
  graph : Graph
  deriving DecidableEq

inductive SessionError where
  | schema (e : SchemaError)
  | edit (e : EditError)
  | grounding (e : GroundingError)
  | transition (e : TransitionError)
  /-- The settings give an attribute type a data type that does not exist. -/
  | badDataType (attributeName dataType : String)
  deriving DecidableEq, Repr

namespace SessionError

/-- What is wrong, without saying in which part of the session. -/
def detail : SessionError → String
  | schema e => e.message
  | edit e => e.message
  | grounding e => e.message
  | transition e => e.message
  | badDataType attributeName dataType =>
    "attribute type '" ++ attributeName ++ "': " ++ DataType.unknownMessage dataType

def part : SessionError → String
  | schema _ => "schema error: "
  | edit _ => "mutation error: "
  | grounding _ => "validation error: "
  | transition _ => "transition error: "
  | badDataType _ _ => "config error: "

def message (e : SessionError) : String := e.part ++ e.detail

end SessionError

def PlanError.toSessionError : PlanError → SessionError
  | schema e => .schema e
  | badDataType attributeName dataType => .badDataType attributeName dataType

namespace Session

/-- A session with an empty graph, and the schema of the settings. -/
def create (settings : Settings) : Except SessionError Session :=
  match settings.schema.build with
  | .error e => .error e.toSessionError
  | .ok shared => .ok ⟨settings, { shared := shared }, Graph.empty settings.space⟩

end Session

/-- Something done in a session, which may be refused. -/
abbrev Action (α : Type) : Type := EStateM SessionError Session α

namespace Action

variable {α : Type}

def edit (e : Edit α) : Action α := fun s =>
  match e s.graph with
  | .ok a g => .ok a { s with graph := g }
  | .error err g => .error (.edit err) { s with graph := g }

def editSchema (step : Schema → Except SchemaError (α × Schema)) : Action α := fun s =>
  match step s.schema with
  | .ok (a, schema) => .ok a { s with schema := schema }
  | .error e => .error (.schema e) s

theorem editSchema_refused {step : Schema → Except SchemaError (α × Schema)} {s s' : Session} {e : SessionError}
    (h : editSchema step s = .error e s') : s' = s := by
  unfold editSchema at h
  split at h
  · cases h
  · cases h
    rfl

def editTransitions (step : Bool → Graph → Except TransitionError (α × Graph)) : Action α := fun s =>
  match step s.settings.rejectCycles s.graph with
  | .ok (a, g) => .ok a { s with graph := g }
  | .error e => .error (.transition e) s

/-- Growth of the graph, which cannot be refused. -/
def extend (step : Graph → α × Graph) : Action α := fun s =>
  let (a, g) := step s.graph
  .ok a { s with graph := g }

end Action

end Morphology
