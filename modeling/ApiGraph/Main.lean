import ApiGraph.CommandLine.Help
import ApiGraph.CommandLine.Run

/-!
# ApiGraph.Main

The command: reads the files that its arguments name, and writes and prints what a run comes to.
-/

namespace ApiGraph

/-- The content of a file, unless it cannot be read. -/
def readFile? (path : String) : IO (Option String) := do
  try
    return some (← IO.FS.readFile path)
  catch _ =>
    return none

/-- Writes a file; tells whether that was possible. -/
def writeFile (path text : String) : IO Bool := do
  try
    IO.FS.writeFile path text
    return true
  catch _ =>
    return false

/-- Runs the command with real files. -/
def runCommand (invocation : Invocation) : IO Outcome := do
  let config ← match invocation.config with
    | none => pure none
    | some path => readFile? path
  let input ← readFile? invocation.task.input
  let files : Contents := fun path =>
    if some path = invocation.config then config else input
  let work := invocation.run files
  let written ← match work.document? with
    | none => pure true
    | some (output, text) => writeFile output text
  return work.outcome invocation.verbose written

end ApiGraph

open ApiGraph in
/-- The command line. -/
def main (arguments : List String) : IO UInt32 := do
  match Request.ofArguments arguments with
  | .error e =>
    IO.eprintln e.message
    return 2
  | .ok (.help topic) =>
    IO.print (helpText topic)
    return 0
  | .ok (.run invocation) =>
    let outcome ← runCommand invocation
    IO.print outcome.stdout
    if !outcome.stderr.isEmpty then
      IO.eprintln outcome.stderr
    return outcome.code.toUInt32
