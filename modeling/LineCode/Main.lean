import LineCode.CommandLine.Run

/-!
# The tool

Reads the settings file that the arguments name, runs the command and prints. Output
goes to the output channel, what is said about a failure to the error channel.
-/

namespace LineCode.CommandLine

/-- The text of a file, if it can be read. -/
def readSettings (path : String) : IO (Option String) := do
  try
    return some (← IO.FS.readFile path)
  catch _ =>
    return none

/-- What is said about a failure. -/
def Failure.message : Failure → String
  | .misuse => "The arguments are not understood. For more information, try '--help'."
  | .noFile => "Error: the settings file cannot be read."
  | .fault (.spelling f) => "Error: " ++ spellingReport f
  | .fault f => "Error: " ++ f.message

/-- Runs the tool and returns its exit code. -/
def execute (args : List String) : IO UInt32 := do
  let path := match Invocation.ofArguments args with
    | .ok invocation => invocation.settingsFile
    | .error _ => none
  let text ← match path with
    | some path => readSettings path
    | none => pure none
  let outcome := run (fun _ => text) args
  (← IO.getStdout).write outcome.output
  if let some failure := outcome.failure then
    IO.eprintln failure.message
  return outcome.code.toUInt32

end LineCode.CommandLine

/-- The entry point. -/
def main (args : List String) : IO UInt32 := LineCode.CommandLine.execute args
