import ObjectGraph.Document.Json
import ObjectGraph.Document.Yaml.Grammar
import ObjectGraph.Materialize
import ObjectGraph.Node.Identity
import ObjectGraph.Traversal.Rule
import ObjectGraph.Traversal.Walk

/-!
# What the commands write

`resolve` writes the type that each type chain resolves to, `walk` the path of every node that a
walk shows, and `id` the content ids of a root or of every node under it. A report holds the lines
that were written and how the command ended.
-/

namespace ObjectGraph

/-! ## Object files

An object file holds one document, as YAML if its name ends in `.yaml` or `.yml` and as JSON
otherwise. The document must be an object, which becomes the root node.
-/

/-- What is found at a path. -/
inductive FileContent where
  | missing
  /-- There is something, but it is not a file of text. -/
  | unreadable
  | text (s : String)

/-- A file without a root node. -/
inductive LoadError where
  | notFound (path : String)
  | unreadable (path : String)
  | invalidJson (path : String)
  | invalidYaml (path : String)
  | notAnObject (path : String)
  | invalidObject (path : String) (cause : PropertyError)
deriving DecidableEq, Repr

namespace LoadError

/-- The error in words; a property error is left to `LoadError.cause?`. -/
def message : LoadError → String
  | .notFound path => "file not found: " ++ path
  | .unreadable path => "failed to read file: " ++ path
  | .invalidJson path => "failed to parse JSON: " ++ path
  | .invalidYaml path => "failed to parse YAML: " ++ path
  | .notAnObject path => "root of " ++ path ++ " is not an object"
  | .invalidObject path _ => "invalid object in " ++ path

/-- The property error behind the error, if there is one. -/
def cause? : LoadError → Option PropertyError
  | .invalidObject _ cause => some cause
  | _ => none

end LoadError

/-- The last step of a path that is not a dot; a path that ends in two dots has no file name. -/
def fileName? (path : String) : Option String :=
  match ((Text.segments '/' path).filter fun step => step != "" && step != ".").getLast? with
  | some ".." => none
  | name => name

/-- What stands after the last dot of the file name, if something stands before it. -/
def extension? (path : String) : Option String := do
  match (Text.segments '.' (← fileName? path)).reverse with
  | _ :: [] | [_, ""] | [] => none
  | last :: _ => some last

/-- Whether the name of a file says that it is YAML. -/
def isYamlPath (path : String) : Bool :=
  extension? path == some "yaml" || extension? path == some "yml"

/-- The document of a file. -/
def readDocument (path : String) : FileContent → Except LoadError Document
  | .missing => .error (.notFound path)
  | .unreadable => .error (.unreadable path)
  | .text s =>
      if isYamlPath path then
        match Document.Yaml.read? s with
        | some d => .ok d
        | none => .error (.invalidYaml path)
      else
        match Document.Json.read? s with
        | some d => .ok d
        | none => .error (.invalidJson path)

/-- The root node of a file. -/
def loadRoot (index : Index) (path : String) (content : FileContent) : Except LoadError Vertex := do
  match (← readDocument path content).asObject? with
  | none => throw (.notAnObject path)
  | some entries => (index.materializeObject entries).mapError (.invalidObject path)

/-! ## Reports -/

/-- A command that could not be carried out. -/
inductive CommandError where
  /-- The index of the core kit cannot be built. -/
  | registry (cause : RegistryError)
  | load (cause : LoadError)
  | rootWithoutId (cause : CanonicalError)
  | nodeWithoutId (typeName : String) (cause : CanonicalError)
deriving DecidableEq, Repr

namespace CommandError

/-- The error in words; what is wrong with a node is left to `CommandError.fullMessage`. -/
def message : CommandError → String
  | .registry cause => cause.message
  | .load cause => cause.message
  | .rootWithoutId _ => "failed to canonicalize root object"
  | .nodeWithoutId typeName _ => "failed to canonicalize " ++ typeName

/-- The message with those of its causes after it. -/
def fullMessage (e : CommandError) : String :=
  match e with
  | .load (.invalidObject _ cause) => e.message ++ ": " ++ cause.message
  | .rootWithoutId cause | .nodeWithoutId _ cause => e.message ++ ": " ++ cause.message
  | _ => e.message

end CommandError

/-- The lines that a command has written, and its exit code or the error that stopped it. -/
structure Report where
  lines : List String
  status : Except CommandError UInt8

namespace Report

/-- The written text. -/
def output (r : Report) : String :=
  String.join (r.lines.map (· ++ "\n"))

/-- A command that was stopped before it wrote anything. -/
def stopped (e : CommandError) : Report :=
  ⟨[], .error e⟩

end Report

section Resolve

/-- Whether a type chain resolves to the fallback without naming it. -/
def fallsBack (index : Index) (discriminator : String) : Bool :=
  let found := index.resolve discriminator
  index.isFallback found && !(Text.segments ':' discriminator).contains found.canonicalName

/-- One line: the type chain, the name of its type, and whether it was found. -/
def resolveLine (index : Index) (discriminator : String) : String :=
  Text.joined '\t' [discriminator, (index.resolve discriminator).canonicalName,
    if fallsBack index discriminator then "fallback" else "exact"]

/-- Resolves type chains. Under `strict` a chain that falls back makes the exit code 2. -/
def resolveReport (index : Index) (discriminators : List String) (strict : Bool) : Report where
  lines := discriminators.map (resolveLine index)
  status := .ok (if strict && discriminators.any (fallsBack index) then 2 else 0)

end Resolve

section Walk

/-- The rules that a walk can be asked for. -/
inductive RuleSet where
  /-- Displayable nodes are opened at their hosted elements only. -/
  | displayable
  /-- Every member of every node. -/
  | all
deriving DecidableEq, Repr

/-- The rules of a choice. Without any rule the walk opens every member. -/
def RuleSet.rules : RuleSet → List Rule
  | .displayable => Rule.displayable
  | .all => []

/-- Walks under a root: the types of its distinct nodes, or the path and type of every node
shown. -/
def walkReport (root : Vertex) (ruleSet : RuleSet) (distinct : Bool) : Report where
  lines :=
    if distinct then (flatten root).map fun v => v.node.typeName
    else (pathIndex ruleSet.rules root).map fun (path, v) =>
      Text.joined '\t' ["/" ++ path, v.node.typeName]
  status := .ok 0

end Walk

section Id

/-- The ids and types of nodes, up to the first node without an id. -/
def idLines : List Vertex → List String × Option CommandError
  | [] => ([], none)
  | v :: rest =>
      match v.node.computeId with
      | .error cause => ([], some (.nodeWithoutId v.node.typeName cause))
      | .ok id =>
          let (lines, stop) := idLines rest
          (Text.joined '\t' [id, v.node.typeName] :: lines, stop)

/-- The exit code under `verify`: 2 if the root carries another id than its content has. -/
def verifyCode (root : Node) (id : String) (verify : Bool) : UInt8 :=
  match root.id with
  | some stored => if verify && stored != id then 2 else 0
  | none => 0

/-- The content id of a root, or of every distinct node under it. -/
def idReport (root : Vertex) (all verify : Bool) : Report :=
  match root.node.computeId with
  | .error cause => .stopped (.rootWithoutId cause)
  | .ok id =>
      let code := verifyCode root.node id verify
      if all then
        let (lines, stop) := idLines (flatten root)
        ⟨lines, match stop with | some e => .error e | none => .ok code⟩
      else ⟨[id], .ok code⟩

end Id

end ObjectGraph
