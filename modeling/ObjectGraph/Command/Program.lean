import ObjectGraph.Command.Arguments
import ObjectGraph.Registry

/-!
# The program

One run of the program: the arguments are read, then the settings of the log, then the command is
carried out against the core kit. Wrong arguments end it with exit code 2, everything else that goes
wrong with exit code 1. How files are looked up is left to the caller.
-/

namespace ObjectGraph

/-! ## Settings of the log

The form of log lines and the level that is logged. Only the choice is made here.
-/

/-- The form of log lines. -/
inductive LogFormat where
  | text
  | json
deriving DecidableEq, Repr

/-- A name that is no form of log lines, in lower case and without blanks around it. -/
structure LogFormatError where
  name : String
deriving DecidableEq, Repr

/-- The error in words, with the name as it was compared. -/
def LogFormatError.message (e : LogFormatError) : String :=
  "unknown log format '" ++ e.name ++ "' (expected text or json)"

namespace LogFormat

/-- The variable of the environment that asks for a form. -/
def variableName : String := "SPK_LOG_FORMAT"

/-- Reads a name in any case with blanks around; an empty one stands for plain text. -/
def ofText (s : String) : Except LogFormatError LogFormat :=
  match Text.lowerLatin (Text.trim s) with
  | "text" | "" => .ok .text
  | "json" => .ok .json
  | other => .error ⟨other⟩

/-- The form that an environment asks for; plain text if it does not say. -/
def ofEnvironment (env : Environment) : Except LogFormatError LogFormat :=
  match env variableName with
  | some value => ofText value
  | none => .ok .text

end LogFormat

/-- The least level that is logged, by the number of times that more was asked for. -/
def logLevel (verbosity : Nat) : String :=
  match verbosity with
  | 0 => "warn"
  | 1 => "info"
  | 2 => "debug"
  | _ => "trace"

/-! ## Runs -/

/-- Why a run of the program failed. -/
inductive ProgramFailure where
  | usage
  | logFormat (cause : LogFormatError)
  | command (cause : CommandError)
deriving DecidableEq, Repr

namespace Program

/-- What `--version` writes. -/
def versionText : String := "spk 0.1.0\n"

/-- The outcome of a run. -/
structure Execution where
  exitCode : UInt8
  output : String
  failure : Option ProgramFailure := none

/-- What is written about a failure. -/
def failureText : ProgramFailure → String
  | .usage => "error: wrong arguments\n\n" ++ HelpTopic.program.text false
  | .logFormat cause => "error: " ++ cause.message ++ "\n"
  | .command cause => "error: " ++ cause.fullMessage ++ "\n"

/-- The outcome of a command by its report. -/
def ofReport (r : Report) : Execution :=
  match r.status with
  | .ok code => { exitCode := code, output := r.output }
  | .error e => { exitCode := 1, output := r.output, failure := some (.command e) }

/-- The outcome of a command line that was not read to its end. -/
def ofStop : Stop → Execution
  | .usage => { exitCode := 2, output := "", failure := some .usage }
  | .help topic inFull => { exitCode := 0, output := topic.text inFull }
  | .version => { exitCode := 0, output := versionText }

section Run

variable {m : Type → Type} [Monad m]

/-- Carries out a command on the root node of a file. -/
def withRoot (index : Index) (look : String → m FileContent) (path : String)
    (report : Vertex → Report) : m Report := do
  match loadRoot index path (← look path) with
  | .ok root => pure (report root)
  | .error e => pure (.stopped (.load e))

/-- Carries out a command against an index. -/
def carryOut (index : Index) (look : String → m FileContent) : Command → m Report
  | .resolve discriminators strict => pure (resolveReport index discriminators strict)
  | .walk file rules distinct =>
      withRoot index look file fun root => walkReport root rules distinct
  | .id file all verify => withRoot index look file fun root => idReport root all verify

/-- One run of the program. -/
def run (env : Environment) (look : String → m FileContent) (arguments : List String) :
    m Execution := do
  match Invocation.ofArguments arguments with
  | .error stop => pure (ofStop stop)
  | .ok invocation =>
      match LogFormat.ofEnvironment env with
      | .error e => pure { exitCode := 1, output := "", failure := some (.logFormat e) }
      | .ok _ =>
          match Index.build [Module.coreKit] with
          | .error e => pure (ofReport (.stopped (.registry e)))
          | .ok index => return ofReport (← carryOut index look invocation.command)

end Run

end Program

end ObjectGraph
