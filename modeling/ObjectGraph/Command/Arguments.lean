import ObjectGraph.Command.Help
import ObjectGraph.Command.Report

/-!
# Arguments of the command line

A command line names one command. Options begin with a hyphen and may stand before, between and
after the operands; after `--` everything is an operand. Every option may be given once, but `-v` as
often as one likes and on both sides of the command's name. Arguments are read from left to right,
and the first that asks for help or the version ends the reading, as does the first that is wrong.
-/

namespace ObjectGraph

/-- What a command line asks for. -/
inductive Command where
  | resolve (discriminators : List String) (strict : Bool)
  | walk (file : String) (rules : RuleSet) (distinct : Bool)
  | id (file : String) (all verify : Bool)
deriving DecidableEq, Repr

/-- Why the reading of arguments ended early. -/
inductive Stop where
  /-- An argument is wrong or missing. -/
  | usage
  /-- Help is asked for, maybe in full. -/
  | help (topic : HelpTopic) (inFull : Bool)
  | version
deriving DecidableEq, Repr

/-- An argument by its form. -/
inductive ArgumentForm where
  /-- Two hyphens: options end here. -/
  | endOfOptions
  | long (name : String) (value : Option String)
  | short (letters : List Char)
  | operand (s : String)
deriving DecidableEq, Repr

namespace ArgumentForm

/-- The form of an argument where options are allowed. A single hyphen is an operand. -/
def of (argument : String) : ArgumentForm :=
  match argument.toList with
  | ['-', '-'] => .endOfOptions
  | '-' :: '-' :: rest =>
      match rest.dropWhile (· != '=') with
      | [] => .long (String.ofList rest) none
      | _ :: value => .long (String.ofList (rest.takeWhile (· != '='))) (some (String.ofList value))
  | '-' :: c :: rest => .short (c :: rest)
  | _ => .operand argument

end ArgumentForm

/-- What has been read of the arguments of a command. -/
structure Arguments where
  /-- How often `-v` was given. -/
  verbosity : Nat := 0
  /-- Names of the options that are set. -/
  options : List String := []
  rules : Option RuleSet := none
  operands : List String := []
deriving DecidableEq, Repr

/-- What a command takes. -/
structure Accepted where
  /-- What help is given on. -/
  topic : HelpTopic
  /-- Options that stand alone. -/
  plain : List String
  /-- Whether the option that chooses a rule set is one of the options. -/
  takesRules : Bool := false
  /-- Whether the version can be asked for. -/
  showsVersion : Bool := false
  /-- Whether the only operand is the path of a file, which must not be empty. -/
  takesFile : Bool := false
deriving DecidableEq, Repr

namespace Arguments

/-- Reads a group of one-letter options. -/
def readShort (accepted : Accepted) (a : Arguments) : List Char → Except Stop Arguments
  | [] => .ok a
  | 'v' :: rest => readShort accepted { a with verbosity := a.verbosity + 1 } rest
  | 'h' :: _ => .error (.help accepted.topic false)
  | 'V' :: _ => .error (if accepted.showsVersion then .version else .usage)
  | _ => .error .usage

/-- Reads an option that stands alone. -/
def readPlain (accepted : Accepted) (a : Arguments) (name : String) : Except Stop Arguments :=
  if name == "verbose" then .ok { a with verbosity := a.verbosity + 1 }
  else if name == "help" then .error (.help accepted.topic true)
  else if name == "version" && accepted.showsVersion then .error .version
  else if accepted.plain.contains name && !a.options.contains name then
    .ok { a with options := name :: a.options }
  else .error .usage

/-- The name of a rule set. -/
def ruleSet? : String → Option RuleSet
  | "displayable" => some .displayable
  | "all" => some .all
  | _ => none

/-- Reads the choice of a rule set. -/
def readRules (a : Arguments) (value : String) : Except Stop Arguments :=
  match a.rules, ruleSet? value with
  | none, some rules => .ok { a with rules := some rules }
  | _, _ => .error .usage

/-- Adds an operand. -/
def readOperand (accepted : Accepted) (a : Arguments) (s : String) : Except Stop Arguments :=
  if accepted.takesFile && (s.isEmpty || !a.operands.isEmpty) then .error .usage
  else .ok { a with operands := a.operands ++ [s] }

/-- Reads all arguments of a command. -/
def read (accepted : Accepted) (a : Arguments) : List String → Except Stop Arguments
  | [] => .ok a
  | argument :: rest =>
      match ArgumentForm.of argument with
      | .endOfOptions => rest.foldlM (readOperand accepted) a
      | .operand s => do read accepted (← a.readOperand accepted s) rest
      | .short letters => do read accepted (← readShort accepted a letters) rest
      | .long name none =>
          if accepted.takesRules && name == "rules" then
            match rest with
            | value :: rest => do read accepted (← a.readRules value) rest
            | [] => .error .usage
          else do read accepted (← a.readPlain accepted name) rest
      | .long name (some value) =>
          if accepted.takesRules && name == "rules" then do read accepted (← a.readRules value) rest
          else .error .usage

/-- The first operand. -/
def file (a : Arguments) : Except Stop String :=
  match a.operands with
  | path :: _ => .ok path
  | [] => .error .usage

/-- Whether an option was given. -/
def has (a : Arguments) (name : String) : Bool :=
  a.options.contains name

end Arguments

/-- A command and how much of its work is to be logged. -/
structure Invocation where
  verbosity : Nat
  command : Command
deriving DecidableEq, Repr

namespace Invocation

/-- Reads the arguments after the name of a command. -/
def ofName (name : String) (verbosity : Nat) (rest : List String) : Except Stop Invocation :=
  match name with
  | "resolve" => do
      let a ← Arguments.read { topic := .resolve, plain := ["strict"] } { verbosity } rest
      if a.operands.isEmpty then throw .usage
      pure ⟨a.verbosity, .resolve a.operands (a.has "strict")⟩
  | "walk" => do
      let accepted : Accepted :=
        { topic := .walk, plain := ["distinct"], takesRules := true, takesFile := true }
      let a ← Arguments.read accepted { verbosity } rest
      pure ⟨a.verbosity, .walk (← a.file) (a.rules.getD .displayable) (a.has "distinct")⟩
  | "id" => do
      let accepted : Accepted := { topic := .id, plain := ["all", "verify"], takesFile := true }
      let a ← Arguments.read accepted { verbosity } rest
      pure ⟨a.verbosity, .id (← a.file) (a.has "all") (a.has "verify")⟩
  | "help" =>
      match rest with
      | [] => .error (.help .program true)
      | ["resolve"] => .error (.help .resolve true)
      | ["walk"] => .error (.help .walk true)
      | ["id"] => .error (.help .id true)
      | ["help"] => .error (.help .help true)
      | _ => .error .usage
  | _ => .error .usage

/-- What stands before the name of a command. -/
def programAccepted : Accepted :=
  { topic := .program, plain := [], showsVersion := true }

/-- Reads a command line; `a` holds the options before the name of the command. -/
def readFrom (a : Arguments) : List String → Except Stop Invocation
  | [] => .error .usage
  | argument :: rest =>
      match ArgumentForm.of argument with
      | .operand name => ofName name a.verbosity rest
      | .short letters => do readFrom (← a.readShort programAccepted letters) rest
      | .long name none => do readFrom (← a.readPlain programAccepted name) rest
      | .long _ (some _) | .endOfOptions => .error .usage

/-- Reads a command line. -/
def ofArguments (arguments : List String) : Except Stop Invocation :=
  readFrom {} arguments

end Invocation

end ObjectGraph
