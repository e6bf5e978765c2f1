import Morphology.Console.Dialogue
import Morphology.Settings.Toml

/-! The command line. Documents named in the arguments are applied in order; without any, the input is. -/

namespace Morphology

structure Arguments where
  verbose : Bool := false
  json : Bool := false
  settings : Option String := none
  documents : List String := []
  deriving DecidableEq, Repr

namespace Arguments

def usage : String := "usage: morph [-v] [--config FILE] [--json] [DOCUMENT...]"

def add (done : Arguments) (arg : String) : Except String Arguments :=
  if arg = "-v" ∨ arg = "--verbose" then .ok { done with verbose := true }
  else if arg = "--json" then .ok { done with json := true }
  else if arg = "-h" ∨ arg = "--help" then .error usage
  else .ok { done with documents := done.documents ++ [arg] }

/-- The arguments, or what is to be told instead of running. -/
def read (done : Arguments) : List String → Except String Arguments
  | [] => .ok done
  | ["--config"] => .error "--config needs a file"
  | "--config" :: path :: args => read { done with settings := some path } args
  | arg :: args =>
    match done.add arg with
    | .error message => .error message
    | .ok done => read done args

def paths (args : Arguments) : List String := args.settings.toList ++ args.documents

end Arguments

structure Exit where
  output : Output
  success : Bool
  deriving DecidableEq, Repr

namespace CommandLine

def failed (message : String) : Exit := ⟨.errorLine message, false⟩

def loadSettings (files : Files) : Option String → Except String Settings
  | none => .ok {}
  | some path =>
    match files path with
    | .error reason => .error (unreadableMessage path reason)
    | .ok text =>
      match Settings.ofText? text with
      | some settings => .ok settings
      | none => .error (path ++ ": config error: not a table of settings")

/-- A run on the way: its console, what was written, and whether every report was clean. -/
structure Progress where
  console : Console
  output : Output := {}
  clean : Bool := true

/-- Applies documents until one cannot be read. -/
def loadDocuments (files : Files) : List String → Progress → Except Exit Progress
  | [], p => .ok p
  | path :: paths, p =>
    match p.console.runFile files path with
    | .error e => .error ⟨p.output ++ .errorLine ("Error loading " ++ path ++ ": " ++ e.message), false⟩
    | .ok (report, notes, console) =>
      loadDocuments files paths
        ⟨console, p.output ++ notes ++ .line (path ++ ": " ++ report.text), p.clean && report.isClean⟩

/-- Applies the input, where no document was named. -/
def takeInput (args : Arguments) (input : String) (p : Progress) : Progress :=
  if args.documents.isEmpty then
    let (report, console) := p.console.runScript input
    ⟨console, p.output ++ .errorLine report.text, p.clean && report.isClean⟩
  else p

def finish (args : Arguments) (p : Progress) : Exit :=
  let last : Output :=
    if args.json then .line p.console.session.jsonText
    else if args.documents.isEmpty then {}
    else .line p.console.session.scoreText
  ⟨p.output ++ last, p.clean⟩

def start (files : Files) (args : Arguments) : Except Exit Console :=
  match loadSettings files args.settings with
  | .error message => .error (failed ("Error loading config " ++ message))
  | .ok settings =>
    match Console.create settings with
    | .error e => .error (failed ("Error: " ++ e.message))
    | .ok console => .ok { console with verbose := args.verbose }

def begin (files : Files) (args : Arguments) : Except Exit Progress := do
  let console ← start files args
  loadDocuments files args.documents { console := console }

def run (files : Files) (args : List String) (input : String) : Exit :=
  match Arguments.read {} args with
  | .error message => failed message
  | .ok args =>
    match begin files args with
    | .error e => e
    | .ok p => finish args (takeInput args input p)

end CommandLine

end Morphology
