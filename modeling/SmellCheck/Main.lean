import SmellCheck.CommandLine

/-!
The program: reads the configuration file, if one is named, and writes what the command answers.
-/

set_option autoImplicit false

namespace SmellCheck.CommandLine

def readSource : Option String → IO Source
  | none => return .absent
  | some file => do
      try return .text (← IO.FS.readFile file)
      catch _ => return .unreadable

def run (arguments : List String) : IO Outcome := do
  match Command.parse? arguments with
  | none => return usage
  | some command => return command.outcome (← readSource command.config?)

end SmellCheck.CommandLine

open SmellCheck.CommandLine in
def main (arguments : List String) : IO UInt32 := do
  let outcome ← run arguments
  (← IO.getStdout).putStr outcome.stdout
  (← IO.getStderr).putStr outcome.stderr
  return outcome.code.toUInt32
