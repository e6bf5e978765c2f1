import Morphology.Scenario.Directive
import Morphology.Scenario.Expectation
import Morphology.Scenario.Operations
import Morphology.Settings.Toml

/-! Scenarios: named steps taken in a fresh session, each with what is expected of it. A step is a directive on a
line of its own, or a document. -/

namespace Morphology

/-- A text that is part of a scenario, or the reason why its file cannot be read. -/
abbrev Source : Type := Except String String

inductive StepSource where
  | none
  | inline (text : String)
  | file (path : String) (source : Source)
  deriving Repr

structure Scenario where
  settings : Option (String × Source) := none
  operations : StepSource := .none
  steps : List (String × Expectation) := []

inductive ScenarioError where
  | unreadable (path reason : String)
  | operations (path reason : String)
  | settings (path reason : String)
  | noStep (name : String)
  | noOperations
  | failed (step reason : String)
  deriving DecidableEq, Repr

def ScenarioError.message : ScenarioError → String
  | unreadable path reason => "failed to read " ++ path ++ ": " ++ reason
  | operations path reason => "failed to parse operations " ++ path ++ ": " ++ reason
  | settings path reason => "invalid config " ++ path ++ ": " ++ reason
  | noStep name => "step '" ++ name ++ "' not found in operations"
  | noOperations => "scenario has no operations"
  | failed step reason => "step '" ++ step ++ "' failed: " ++ reason

namespace Scenario

def parseInline (text : String) : Except ScenarioError Operations :=
  match Operations.parse text with
  | .ok operations => .ok operations
  | .error e => .error (.operations "<inline>" e.message)

/-- What is wrong with a file is told as it is of an inline text. -/
def loadOperations : StepSource → Except ScenarioError Operations
  | .none => .error .noOperations
  | .inline text => parseInline text
  | .file path (.error reason) => .error (.unreadable path reason)
  | .file path (.ok text) =>
    match parseInline text with
    | .ok operations => .ok operations
    | .error e => .error (.operations path e.message)

def createSession (path : String) (settings : Settings) : Except ScenarioError Session :=
  match Session.create settings with
  | .ok s => .ok s
  | .error e => .error (.settings path e.message)

def startSession : Option (String × Source) → Except ScenarioError Session
  | none => createSession "<default>" {}
  | some (path, .error reason) => .error (.unreadable path reason)
  | some (path, .ok text) =>
    match Settings.ofText? text with
    | some settings => createSession path settings
    | none => .error (.settings path "config error: not a table of settings")

def capture (s : Session) (report : Report) (deleted : Deleted) : StepOutcome where
  report := report
  deleted := deleted
  nodes := s.graph.nodes.size
  morphs := s.graph.morphCount
  relations := s.graph.relations.size
  attributes := s.graph.attributes.size
  transitions := s.graph.transitions.size
  score := (s.score ∅).total
  document := s.exportText

def isDirective (text : String) : Bool :=
  ['@'].isPrefixOf text.toList && !text.toList.contains '\n'

def runDirective (text : String) (s : Session) : Except String StepOutcome × Session :=
  match Directive.parse text with
  | .error e => (.error e.message, s)
  | .ok d =>
    match d.execute s with
    | (.ok deleted, s) => (.ok (capture s {} deleted), s)
    | (.error e, s) => (.error e.message, s)

def runStep (text : String) (s : Session) : Except String StepOutcome × Session :=
  let trimmed := Text.trim text
  if isDirective trimmed then runDirective trimmed s
  else
    let (report, s) := s.apply text
    (.ok (capture s report {}), s)

/-- Takes the steps in turn, up to the first that does not turn out as expected. -/
def runSteps (operations : Operations) : List (String × Expectation) → Session → Except ScenarioError Session
  | [], s => .ok s
  | (name, expected) :: steps, s =>
    match operations.step? name with
    | none => .error (.noStep name)
    | some text =>
      let (result, s) := runStep text s
      match expected.verify result with
      | .error reason => .error (.failed name reason)
      | .ok () => runSteps operations steps s

def run (scenario : Scenario) : Except ScenarioError Session := do
  let operations ← loadOperations scenario.operations
  let s ← startSession scenario.settings
  runSteps operations scenario.steps s

end Scenario

end Morphology
