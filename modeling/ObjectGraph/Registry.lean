import ObjectGraph.Registry.Index
import ObjectGraph.Text

/-!
# The registry and its life cycle

A registry has no index until it is initialized. It then publishes one index, and a second
initialization must ask for the same modules. After a reset it can be initialized again; every index
that it ever published is an edition, and a resolver keeps to the edition it was taken from, so
later resets do not change its answers.
-/

namespace ObjectGraph

/-! ## Resolution of type chains

A type chain names types from the most general to the most specific one, with colons between them.
It is resolved to the most specific type that the index knows: the segments are tried from the last
to the first, each as it stands and then in its deprecated form, and a chain without a known segment
resolves to the fallback. A resolver remembers answers, up to a number of them; what it remembers
never changes an answer.
-/

/-- The namespace part that marks retired types. -/
def deprecatedNamespace : String := "Deprecated"

/-- The name that a retired type of this name has: the mark goes before the last part. There is none
for an empty name or an empty namespace. -/
def deprecatedVariant (segment : String) : Option String :=
  match (Text.segments '.' segment).reverse with
  | [] => none
  | [name] => if name.isEmpty then none else some (Text.joined '.' [deprecatedNamespace, name])
  | name :: parts =>
      let namespaceName := Text.joined '.' parts.reverse
      if namespaceName.isEmpty then none
      else some (Text.joined '.' [namespaceName, deprecatedNamespace, name])

namespace Index

/-- The type that one segment names, as it stands or in its deprecated form. -/
def hit? (index : Index) (segment : String) : Option Descriptor :=
  (index.lookup segment).or ((deprecatedVariant segment).bind index.lookup)

/-- The most specific known type of a chain. -/
def resolve (index : Index) (discriminator : String) : Descriptor :=
  ((Text.segments ':' discriminator).reverse.findSome? index.hit?).getD index.fallback

/-- Whether a type is the one that unknown chains are read as. -/
def isFallback (index : Index) (d : Descriptor) : Bool :=
  d == index.fallback

end Index

/-- Remembered answers, at most `capacity` of them. -/
structure Memo where
  capacity : Nat
  answers : List (String × Descriptor)
deriving DecidableEq, Repr

/-- An index and the answers it has given, if they are remembered. -/
structure Resolver where
  index : Index
  memo : Option Memo
deriving DecidableEq, Repr

namespace Resolver

/-- Resolves a chain. A remembered answer is given again; a new one is remembered while there is
room. -/
def resolve (r : Resolver) (discriminator : String) : Descriptor × Resolver :=
  match r.memo with
  | none => (r.index.resolve discriminator, r)
  | some memo =>
      match Entries.get? discriminator memo.answers with
      | some answer => (answer, r)
      | none =>
          let answer := r.index.resolve discriminator
          if memo.answers.length < memo.capacity then
            let answers := Entries.insert discriminator answer memo.answers
            (answer, { r with memo := some { memo with answers } })
          else (answer, r)

end Resolver

/-! ## Settings

Whether a resolver remembers its answers, and how many. Both can be set by environment variables; a
variable that is not set leaves the default.
-/

/-- The variables of an environment that hold valid text. -/
abbrev Environment := String → Option String

/-- A variable whose value is not understood. -/
structure ConfigError where
  variableName : String
  value : String
deriving DecidableEq, Repr

/-- The error in words, with the variable and its value. -/
def ConfigError.message (e : ConfigError) : String :=
  "invalid value for " ++ e.variableName ++ ": '" ++ e.value ++ "'"

/-- Settings of a registry. -/
structure RegistryConfig where
  memoize : Bool := true
  /-- The most answers that a resolver remembers. -/
  memoCapacity : Nat := 4096
deriving DecidableEq, Repr

namespace RegistryConfig

/-- The variable that switches the memory of resolvers on or off. -/
def memoizeVariable : String := "SPK_RESOLVER_MEMOIZE"

/-- The variable that bounds the memory of a resolver. -/
def capacityVariable : String := "SPK_RESOLVER_MEMO_CAPACITY"

/-- The usual spellings of yes and no, in any case and with blanks around. -/
def readSwitch? (raw : String) : Option Bool :=
  let word := Text.lowerLatin (Text.trim raw)
  if ["1", "true", "yes", "on"].contains word then some true
  else if ["0", "false", "no", "off"].contains word then some false
  else none

/-- A count of 64 bits, with blanks around. -/
def readCount? (raw : String) : Option Nat :=
  Text.readUnsigned? 0xffffffffffffffff (Text.trim raw).toList

/-- The value of a variable by its reader, or a default if it is not set. -/
def readVariable {α : Type} (env : Environment) (name : String) (default : α)
    (read : String → Option α) : Except ConfigError α :=
  match env name with
  | none => .ok default
  | some raw =>
      match read raw with
      | some value => .ok value
      | none => .error ⟨name, raw⟩

/-- The settings of an environment; the first variable that is not understood is reported. -/
def ofEnvironment (env : Environment) : Except ConfigError RegistryConfig := do
  let defaults : RegistryConfig := {}
  let memoize ← readVariable env memoizeVariable defaults.memoize readSwitch?
  let memoCapacity ← readVariable env capacityVariable defaults.memoCapacity readCount?
  pure { memoize, memoCapacity }

end RegistryConfig

/-! ## The life cycle -/

/-- A reference to the resolver of one edition. -/
structure Edition where
  number : Nat
deriving DecidableEq, Repr

/-- A registry of model types. -/
structure Registry where
  config : RegistryConfig := {}
  /-- One resolver for each index that was ever published, oldest first. -/
  editions : List Resolver := []
  /-- The edition that is published now. -/
  published : Option Edition := none
deriving DecidableEq, Repr

namespace Registry

/-- The resolver of an edition. -/
def edition? (r : Registry) (e : Edition) : Option Resolver :=
  r.editions[e.number]?

/-- The published index. -/
def types (r : Registry) : Except RegistryError Index :=
  match r.published.bind r.edition? with
  | some resolver => .ok resolver.index
  | none => .error .notInitialized

/-- Whether an index is published. -/
def isInitialized (r : Registry) : Bool :=
  r.published.isSome

/-- The edition that is published now. -/
def resolver (r : Registry) : Except RegistryError Edition :=
  match r.published with
  | some edition => .ok edition
  | none => .error .notInitialized

/-- Publishes an index as a new edition. -/
def publish (r : Registry) (index : Index) : Registry :=
  let memo := if r.config.memoize then some ⟨r.config.memoCapacity, []⟩ else none
  { r with
    editions := r.editions ++ [⟨index, memo⟩]
    published := some ⟨r.editions.length⟩ }

/-- Builds and publishes the index of a list of modules. A registry that is initialized stays as it
is and accepts only the modules it was built from. -/
def build (r : Registry) (modules : List Module) : Except RegistryError Registry :=
  match r.types with
  | .ok index =>
      let requested := Index.moduleNames modules
      if index.modules = requested then .ok r
      else .error (.conflictingInitialization index.modules requested)
  | .error _ => (Index.build modules).map r.publish

/-- Withdraws the published index. -/
def reset (r : Registry) : Registry :=
  { r with published := none }

/-- Resolves a chain by the resolver of an edition. -/
def resolve (r : Registry) (e : Edition) (discriminator : String) :
    Option (Descriptor × Registry) :=
  (r.edition? e).map fun resolver =>
    let (answer, resolver) := resolver.resolve discriminator
    (answer, { r with editions := r.editions.set e.number resolver })

end Registry

end ObjectGraph
