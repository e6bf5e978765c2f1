import Morphology.CommandLine

/-! The program: reads the files and the input, runs, and writes. At a terminal the conversation goes on line by
line. -/

namespace Morphology.Program

/-- Why a file cannot be read, by the number of the error. -/
def reason (e : IO.Error) : String :=
  match e with
  | .noFileOrDirectory _ _ _ => "No such file or directory (os error 2)"
  | .permissionDenied _ _ _ => "Permission denied (os error 13)"
  | .inappropriateType _ _ _ => "Is a directory (os error 21)"
  | .userError _ => "stream did not contain valid UTF-8"
  | e => toString e

def readFile (path : String) : IO (Except String String) := do
  try
    return .ok (← IO.FS.readFile path)
  catch e => return .error (reason e)

def readFiles (paths : List String) : IO Files := do
  let texts ← paths.mapM fun path => return (path, ← readFile path)
  return fun path => (texts.lookup path).getD (.error "not read")

def write (output : Output) : IO Unit := do
  let out ← IO.getStdout
  out.putStr output.out
  out.flush
  (← IO.getStderr).putStr output.err

def leave (e : Exit) : IO UInt32 := do
  write e.output
  return if e.success then 0 else 1

partial def converse (input : IO.FS.Stream) (c : Console) : IO Console := do
  write c.prompt
  let line ← input.getLine
  if line.isEmpty then return c
  let files ← readFiles (Console.fileWanted? line).toList
  let turn := c.feed files line
  write turn.output
  if turn.goesOn then converse input turn.console else return turn.console

partial def readRest (input : IO.FS.Stream) (before : String) : IO String := do
  let line ← input.getLine
  if line.isEmpty then return before else readRest input (before ++ line)

/-- The conversation between the documents and the end of a run. -/
def talk (input : IO.FS.Stream) (p : CommandLine.Progress) : IO CommandLine.Progress := do
  write (p.output ++ Console.banner)
  let console ← converse input p.console
  let (last, console) := console.finish
  write last
  return { p with console := console, output := {} }

def runWith (args : Arguments) : IO UInt32 := do
  let files ← readFiles args.paths
  match CommandLine.begin files args with
  | .error e => leave e
  | .ok p =>
    let input ← IO.getStdin
    if (← input.isTty) && !args.json then
      let p ← talk input p
      leave (CommandLine.finish args p)
    else
      let text ← if args.documents.isEmpty then readRest input "" else pure ""
      leave (CommandLine.finish args (CommandLine.takeInput args text p))

end Morphology.Program

def main (args : List String) : IO UInt32 := do
  match Morphology.Arguments.read {} args with
  | .error message => Morphology.Program.leave (Morphology.CommandLine.failed message)
  | .ok args => Morphology.Program.runWith args
