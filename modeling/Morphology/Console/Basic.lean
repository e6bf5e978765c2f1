import Morphology.Session.Operation

/-! A console over a session: the document text typed so far, and how much is told. Files are looked up by
name; whoever runs the console provides them. -/

namespace Morphology

structure Console where
  session : Session
  /-- The text typed since the last one was applied. -/
  buffer : String := ""
  verbose : Bool := false
  deriving DecidableEq

/-- The text of a file, or why there is none. -/
abbrev Files : Type := String → Except String String

inductive ConsoleError where
  | session (e : SessionError)
  | usage (text : String)
  | unreadable (path reason : String)
  deriving DecidableEq, Repr

def unreadableMessage (path reason : String) : String := "failed to read " ++ path ++ ": " ++ reason

def ConsoleError.message : ConsoleError → String
  | session e => e.message
  | usage text => text
  | unreadable path reason => unreadableMessage path reason

structure Output where
  out : String := ""
  err : String := ""
  deriving DecidableEq, Repr

namespace Output

def append (a b : Output) : Output := ⟨a.out ++ b.out, a.err ++ b.err⟩

instance : Append Output := ⟨append⟩

def line (text : String) : Output := { out := text ++ "\n" }

def errorLine (text : String) : Output := { err := text ++ "\n" }

end Output

namespace Console

def create (settings : Settings) : Except SessionError Console :=
  (Session.create settings).map fun session => { session := session }

def runScript (text : String) (c : Console) : Report × Console :=
  let (report, session) := c.session.apply text
  (report, { c with session := session })

/-- What a loud console tells before it applies a file. -/
def loadingNote (c : Console) (path : String) : Output :=
  if c.verbose then .line ("Loading: " ++ path) else {}

def runFile (files : Files) (path : String) (c : Console) : Except ConsoleError (Report × Output × Console) :=
  match files path with
  | .error reason => .error (.unreadable path reason)
  | .ok text =>
    let (report, c') := c.runScript text
    .ok (report, c.loadingNote path, c')

/-- The report; a loud console adds what was applied. -/
def describe (c : Console) (report : Report) : String :=
  let appliedLine (a : Applied) : String :=
    "\n  " ++ (if a.created then "+" else "~") ++ " line " ++ Text.ofNat a.line ++ ": " ++ a.edge.text
  report.text ++ Text.concat (if c.verbose then report.applied.map appliedLine else [])

end Console

end Morphology
