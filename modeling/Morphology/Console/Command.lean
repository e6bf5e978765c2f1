import Morphology.Console.Listing

/-! The commands of a console. A command starts with a backslash and ends at the first space; a few words alone
on a line are commands as well, and any other line is document text. -/

namespace Morphology.Console

def helpText : String :=
  Text.concat (["Morph REPL Commands:",
    "  \\i <file>              Load and apply a document",
    "  \\go                    Apply the buffered document text",
    "  \\reset                 Discard the buffered text",
    "  \\show                  Print the graph as a document",
    "  \\dt                    Show schema types",
    "  \\dg                    Show graph stats",
    "  \\find <text>           Search nodes by name",
    "  \\morphs <node>         List a node's morphs",
    "  \\switch <node> > <m>   Make morph <m> active (`basic` for the basic morph)",
    "  \\score                 Score the active view",
    "  \\json                  Print the active view as JSON",
    "  verbose                Toggle verbose mode",
    "  help, \\h               Show this help",
    "  quit, \\q               Exit",
    "",
    "Any other input is buffered as document text:",
    "  # socrates",
    "  :::cnl",
    "  <teaches> philosophy",
    "  :::"].map fun line => line ++ "\n")

/-- The morph meant by a name; `basic` in any case means the basic morph. -/
def morphNameOf (text : String) : Option String :=
  if Text.lowercaseAscii text = "basic" then none else some text

def switchMorph (args : String) (c : Console) : Except ConsoleError (String × Console) :=
  match Text.splitFirst ">" args with
  | none => .error (.usage "usage: \\switch <node> > <morph>")
  | some (nodeText, morphText) => do
    let node ← c.session.findNode nodeText
    let name := Text.trim morphText
    match c.session.graph.morphNamed node (morphNameOf name) with
    | none => throw (.usage ("no morph named '" ++ name ++ "'"))
    | some morph =>
      match Action.perform (.switchActive node morph.id) c.session with
      | .error e _ => throw (.session e)
      | .ok _ session =>
        return (node.text ++ " is now " ++ morph.id.text, { c with session := session })

/-- What a command answers, and what it writes on its way. -/
structure Reply where
  notes : Output := {}
  result : Except ConsoleError String

/-- The reply, and the console afterwards; a refused command changes nothing. -/
def answer (c : Console) (r : Except ConsoleError (String × Console)) : Reply × Console :=
  match r with
  | .error e => ({ result := .error e }, c)
  | .ok (text, c) => ({ result := .ok text }, c)

def load (files : Files) (path : String) (c : Console) : Reply × Console :=
  match c.runFile files path with
  | .error e => ({ result := .error e }, c)
  | .ok (report, notes, c) => (⟨notes, .ok (c.describe report)⟩, c)

def go (c : Console) : Reply × Console :=
  let (report, c) := { c with buffer := "" }.runScript c.buffer
  ({ result := .ok (c.describe report) }, c)

/-- A command and its arguments, cut at the first space. -/
def splitCommand (input : String) : String × String :=
  let input := Text.trim input
  (Text.splitFirst " " input).getD (input, "")

def execute (files : Files) (input : String) (c : Console) : Reply × Console :=
  let (command, args) := splitCommand input
  let shown (text : String) : Reply × Console := ({ result := .ok text }, c)
  match command with
  | "\\i" => c.load files (Text.trim args)
  | "\\go" => c.go
  | "\\reset" => ({ result := .ok "" }, { c with buffer := "" })
  | "\\show" => shown c.session.exportText
  | "\\dt" => shown c.session.listTypes
  | "\\dg" => shown c.session.stats
  | "\\find" => shown (c.session.listNodes args)
  | "\\morphs" => ({ result := c.session.listMorphs args }, c)
  | "\\switch" => c.answer (c.switchMorph args)
  | "\\score" => shown c.session.scoreText
  | "\\json" => shown c.session.jsonText
  | _ => ({ result := .error (.usage ("unknown command '" ++ command ++ "', try \\h")) }, c)

def Reply.output (r : Reply) : Output :=
  r.notes ++
    match r.result with
    | .ok text => if text.isEmpty then {} else .line text
    | .error e => .errorLine ("Error: " ++ e.message)

def fileWanted? (input : String) : Option String :=
  let (command, args) := splitCommand input
  if command = "\\i" then some (Text.trim args) else none

inductive Word where
  | quit
  | help
  | verbose
  deriving DecidableEq, Repr

/-- The command that is a word alone on its line, in any case. -/
def Word.ofLine? (line : String) : Option Word :=
  let word := Text.lowercase (Text.trim line)
  if word = "quit" ∨ word = "exit" ∨ word = "\\q" then some .quit
  else if word = "help" ∨ word = "\\h" then some .help
  else if word = "verbose" then some .verbose
  else none

def isCommand (line : String) : Bool := ['\\'].isPrefixOf (Text.trim line).toList

def dropLineEnd (line : String) : String :=
  String.ofList (Chars.dropEndWhile (fun c => c == '\r' || c == '\n') line.toList)

def bufferLine (line : String) (c : Console) : Console :=
  { c with buffer := c.buffer ++ dropLineEnd line ++ "\n" }

/-- The outcome of a line: whether to go on, and what was written. -/
structure Turn where
  goesOn : Bool
  output : Output
  console : Console

def feed (files : Files) (line : String) (c : Console) : Turn :=
  match Word.ofLine? line with
  | some .quit => ⟨false, {}, c⟩
  | some .help => ⟨true, { out := helpText }, c⟩
  | some .verbose =>
    let c := { c with verbose := !c.verbose }
    ⟨true, .line ("Verbose mode: " ++ Value.boolText c.verbose), c⟩
  | none =>
    if isCommand line then
      let (reply, c) := c.execute files (Text.trim line)
      ⟨true, reply.output, c⟩
    else ⟨true, {}, c.bufferLine line⟩

end Morphology.Console
