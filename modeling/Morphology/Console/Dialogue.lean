import Morphology.Console.Command

/-! A whole conversation: prompts and answers, line by line, until the input ends or a line quits. Text still in
the buffer is applied then. -/

namespace Morphology.Console

def banner : Output :=
  .line "Morph REPL v0.1.0" ++ .line "Type 'help' for commands, 'quit' to exit" ++ .line ""

def prompt (c : Console) : Output :=
  { out := if c.buffer.isEmpty then "morph> " else "morph| " }

def finish (c : Console) : Output × Console :=
  if c.buffer.isEmpty then ({}, c)
  else
    let (reply, c) := c.go
    (reply.output, c)

/-- The lines of an input, each with its line break. -/
def inputLines (input : String) : List String :=
  let parts := Chars.pieces (· == '\n') input.toList
  parts.dropLast.map (fun part => String.ofList (part ++ ['\n'])) ++
    (match parts.getLast? with
    | some (c :: cs) => [String.ofList (c :: cs)]
    | _ => [])

/-- The answers to the lines, and the lines left over. -/
def converse (files : Files) : List String → Console → Output × List String × Console
  | [], c => (c.prompt, [], c)
  | line :: lines, c =>
    let turn := c.feed files line
    let output := c.prompt ++ turn.output
    if turn.goesOn then
      let (more, left, c) := converse files lines turn.console
      (output ++ more, left, c)
    else (output, lines, turn.console)

/-- All that is written, the input left over, and the console afterwards. -/
def dialogue (files : Files) (input : String) (c : Console) : Output × String × Console :=
  let (output, left, c) := converse files (inputLines input) c
  let (last, c) := c.finish
  (banner ++ output ++ last, Text.concat left, c)

end Morphology.Console
