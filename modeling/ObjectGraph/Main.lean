import ObjectGraph.Command.Program

/-!
# The command line

Looks files up on the disk, runs the program and writes what it has to say.
-/

namespace ObjectGraph

/-- What is found at a path on the disk. -/
def lookOnDisk (path : String) : IO FileContent := do
  try
    let bytes ← IO.FS.readBinFile path
    match String.fromUTF8? bytes with
    | some s => pure (.text s)
    | none => pure .unreadable
  catch e =>
    match e with
    | .noFileOrDirectory .. => pure .missing
    | _ => pure .unreadable

/-- The variables of the environment that the program reads. -/
def readEnvironment : IO Environment := do
  let logFormat ← IO.getEnv LogFormat.variableName
  pure fun name => if name == LogFormat.variableName then logFormat else none

end ObjectGraph

open ObjectGraph in
/-- Runs the program on the arguments of the process. -/
def main (arguments : List String) : IO UInt32 := do
  let execution ← Program.run (← readEnvironment) lookOnDisk arguments
  IO.print execution.output
  if let some failure := execution.failure then
    IO.eprint (Program.failureText failure)
  pure execution.exitCode.toUInt32
