import ObjectGraph.Entries
import ObjectGraph.Name
import ObjectGraph.Node
import ObjectGraph.Text.Quoted

/-!
# The index of model types

A module is a named group of definitions of model types. The index is built once from a list of
modules. Of modules with one name the first counts, of definitions with one handle the first, and
the root type is always defined as `TypeDefinition.root`. A definition is indexed when it is not
abstract and its chain of parents reaches the root. Canonical names win over former names, and a
former name belongs to the first type that lists it.
-/

namespace ObjectGraph

/-! ## Type definitions

A definition says under which name a type is stored, which former names it answers to, which type it
derives from and which members it declares. Types are identified by handles; the handle of the root
type is known.
-/

/-- The identity of a model type. A type has one name, so handles with one number are equal; two
types may share a name, and then their numbers tell them apart. -/
structure TypeHandle where
  /-- The number that identifies the type. -/
  id : Nat
  /-- The name of the type in messages. -/
  name : String
deriving DecidableEq, Repr

namespace TypeHandle

/-- The type that every model type derives from. -/
def root : TypeHandle := ⟨0, "spk_core::base::Base"⟩

/-- The container of elements. -/
def collection : TypeHandle := ⟨1, "spk_registry::kit::Collection"⟩

/-- The slice of a long list. -/
def dataChunk : TypeHandle := ⟨2, "spk_registry::kit::DataChunk"⟩

end TypeHandle

/-- Access to one declared member by its name. -/
structure Accessor where
  name : String
  /-- Whether the value is stored as an object of its own. -/
  detachable : Bool
deriving DecidableEq, Repr

namespace Accessor

/-- An accessor whose name says whether the value is detachable. -/
def ofName (name : String) : Accessor :=
  ⟨name, Name.isDetachable name⟩

/-- An accessor of a member that is detached under its plain name. -/
def detached (name : String) : Accessor :=
  ⟨name, true⟩

end Accessor

/-- What is declared about one model type. -/
structure TypeDefinition where
  handle : TypeHandle
  /-- The name under which nodes of the type are stored. -/
  typeName : Option String := none
  /-- Former names that the type still answers to. -/
  deprecatedNames : List String := []
  parent : Option TypeHandle := none
  /-- An abstract type can be an ancestor but has no nodes. -/
  isAbstract : Bool := false
  /-- The members that the type adds to those of its parent. -/
  members : List Accessor := []
deriving DecidableEq, Repr

/-- A named group of definitions. -/
structure Module where
  name : String
  /-- Modules made at run time are not scanned. -/
  scannable : Bool := true
  types : List TypeDefinition := []
deriving DecidableEq, Repr

namespace TypeDefinition

/-- The root type: it declares no members. -/
def root : TypeDefinition where
  handle := TypeHandle.root
  typeName := some Name.rootType

/-- A named, typed container of elements. -/
def collection : TypeDefinition where
  handle := TypeHandle.collection
  typeName := some "Speckle.Core.Models.Collection"
  parent := some TypeHandle.root
  members := [Accessor.ofName "name", Accessor.ofName "collectionType",
    Accessor.detached "elements"]

/-- A slice of a list that is stored in parts. -/
def dataChunk : TypeDefinition where
  handle := TypeHandle.dataChunk
  typeName := some "Speckle.Core.Models.DataChunk"
  parent := some TypeHandle.root
  members := [Accessor.ofName "data"]

end TypeDefinition

/-- The types that every host understands. -/
def Module.coreKit : Module where
  name := "Speckle.Core"
  types := [TypeDefinition.root, TypeDefinition.collection, TypeDefinition.dataChunk]

/-! ## The index -/

/-- An index or a registry that cannot be had. -/
inductive RegistryError where
  /-- A type that derives from the root has no name to be stored under. -/
  | missingTypeIdentity (type : TypeHandle)
  /-- Two types are stored under one name. -/
  | duplicateTypeName (name : String) (first second : TypeHandle)
  /-- The chain of parents comes back to a type that is on it already. -/
  | inheritanceCycle (type : TypeHandle)
  /-- The registry was built from other modules. -/
  | conflictingInitialization (existing requested : List String)
  | notInitialized
deriving DecidableEq, Repr

namespace RegistryError

/-- The error in words. Types are called by their names, modules are listed. -/
def message : RegistryError → String
  | .missingTypeIdentity type =>
      "model type '" ++ type.name ++ "' derives from Base but declares no speckle_type"
  | .duplicateTypeName name first second =>
      "speckle_type '" ++ name ++ "' is declared by both '" ++ first.name ++ "' and '" ++
        second.name ++ "'"
  | .inheritanceCycle type =>
      "inheritance cycle detected while resolving ancestry of '" ++ type.name ++ "'"
  | .conflictingInitialization existing requested =>
      "registry already initialized with modules " ++ Text.quotedList existing ++ "; refusing " ++
        Text.quotedList requested
  | .notInitialized => "type registry accessed before initialization"

/-- Whether the error reports a wrong declaration of types or a wrong start-up. -/
def isConfiguration : RegistryError → Bool
  | .notInitialized => false
  | _ => true

end RegistryError

/-- What the index holds about one model type. -/
structure Descriptor where
  canonicalName : String
  handle : TypeHandle
  /-- Stored names from the first type below the root down to this one. -/
  ancestry : List String
  deprecatedNames : List String
  /-- Declared members by name, inherited ones first. -/
  properties : List (String × Accessor)
deriving DecidableEq, Repr

namespace Descriptor

/-- Whether the type is stored under the name of the root type. -/
def isRoot (d : Descriptor) : Bool :=
  d.canonicalName == Name.rootType

/-- The type chain that nodes of this type carry. -/
def discriminator (d : Descriptor) : String :=
  Text.joined ':' d.ancestry

/-- A node of this type with every declared member null. -/
def instantiate (d : Descriptor) : Node :=
  Node.withMembers d.discriminator (Entries.keys d.properties)

/-- The accessor of a declared member. -/
def property? (d : Descriptor) (name : String) : Option Accessor :=
  Entries.get? name d.properties

end Descriptor

/-- Definitions by handle, in order of discovery. -/
abbrev Definitions := List (TypeHandle × TypeDefinition)

namespace Definitions

/-- The modules that are read: the first one of each name. -/
def distinctModules (modules : List Module) : List Module :=
  Entries.values (modules.foldl (fun seen m => Entries.insertNew m.name m seen) [])

/-- The definitions of a list of modules, the root type first. -/
def ofModules (modules : List Module) : Definitions :=
  ((distinctModules modules).filter (·.scannable)).foldl
    (fun known m => m.types.foldl (fun known d => Entries.insertNew d.handle d known) known)
    [(TypeHandle.root, TypeDefinition.root)]

/-- Removing an entry that is there leaves a shorter list. -/
theorem length_erase_lt {h : TypeHandle} {d : TypeDefinition} :
    ∀ {remaining : Definitions}, Entries.get? h remaining = some d →
      (Entries.erase h remaining).length < remaining.length
  | [], found => by simp at found
  | (k, e) :: rest, found => by
      by_cases hk : k = h
      · simp [Entries.erase, hk]
      · simp only [Entries.get?, hk, if_false] at found
        have := length_erase_lt found
        simp only [Entries.erase, hk, if_false, List.length_cons]
        omega

/-- The ancestors of a definition, nearest first, where `remaining` are the definitions that are not
on the chain yet. Nothing, if the chain leaves the known definitions; an error, if it comes back to
a definition that it has met. -/
def climb (known remaining : Definitions) (type : TypeHandle) (d : TypeDefinition) :
    Except RegistryError (Option (List TypeDefinition)) :=
  if d.handle = TypeHandle.root then .ok (some [])
  else match d.parent with
    | none => .ok none
    | some parent =>
        match _found : Entries.get? parent remaining with
        | some ancestor =>
            (climb known (Entries.erase parent remaining) type ancestor).map
              (Option.map (ancestor :: ·))
        | none =>
            -- A parent that is known but no longer remaining is on the chain already.
            if Entries.contains parent known then .error (.inheritanceCycle type) else .ok none
termination_by remaining.length
decreasing_by exact length_erase_lt _found

/-- The chain from the root down to a definition, both included. -/
def lineage (known : Definitions) (d : TypeDefinition) :
    Except RegistryError (Option (List TypeDefinition)) :=
  (climb known (Entries.erase d.handle known) d.handle d).map
    (Option.map fun ancestors => (d :: ancestors).reverse)

end Definitions

namespace Descriptor

/-- The stored names along a chain, without the root's; the root's own chain has its name alone. -/
def ancestryOf (chain : List TypeDefinition) (d : TypeDefinition) (name : String) : List String :=
  if d.handle = TypeHandle.root then [name]
  else (chain.filter (·.handle ≠ TypeHandle.root)).filterMap (·.typeName)

/-- The members along a chain; of members with one name the most general type's one counts. -/
def propertiesOf (chain : List TypeDefinition) : List (String × Accessor) :=
  (chain.flatMap (·.members)).foldl (fun known m => Entries.insertNew m.name m known) []

/-- The descriptor of a definition. Nothing, if the type is abstract or does not derive from the
root. -/
def ofDefinition? (known : Definitions) (d : TypeDefinition) :
    Except RegistryError (Option Descriptor) :=
  if d.isAbstract then .ok none
  else do
    match ← Definitions.lineage known d with
    | none => pure none
    | some chain =>
        match d.typeName with
        | none => throw (.missingTypeIdentity d.handle)
        | some name =>
            pure (some {
              canonicalName := name
              handle := d.handle
              ancestry := ancestryOf chain d name
              deprecatedNames := d.deprecatedNames
              properties := propertiesOf chain })

/-- The descriptors of a list of definitions; the first fault ends the search. -/
def ofDefinitions (known : Definitions) :
    List TypeDefinition → Except RegistryError (List Descriptor)
  | [] => .ok []
  | d :: rest => do
      let found ← ofDefinition? known d
      let others ← ofDefinitions known rest
      pure (found.toList ++ others)

end Descriptor

/-- The table of every name that the index answers to. -/
abbrev NameTable := List (String × Descriptor)

namespace NameTable

/-- Enters the canonical names; a name may be taken once. -/
def addCanonical : NameTable → List Descriptor → Except RegistryError NameTable
  | table, [] => .ok table
  | table, d :: rest =>
      match Entries.get? d.canonicalName table with
      | some first => .error (.duplicateTypeName d.canonicalName first.handle d.handle)
      | none => addCanonical (table ++ [(d.canonicalName, d)]) rest

/-- Enters the former names that are still free. -/
def addDeprecated (table : NameTable) (descriptors : List Descriptor) : NameTable :=
  descriptors.foldl
    (fun table d => d.deprecatedNames.foldl (fun table name =>
      Entries.insertNew name d table) table)
    table

end NameTable

/-- The built index. -/
structure Index where
  /-- The indexed types in order of discovery, the root first. -/
  descriptors : List Descriptor
  names : NameTable
  /-- The type that every unknown chain is read as. -/
  fallback : Descriptor
  /-- Names of the modules, sorted and each once. -/
  modules : List String
deriving DecidableEq, Repr

namespace Index

/-- Names in increasing order, each once. -/
def sortedNames (names : List String) : List String :=
  Entries.keys (Entries.sorted (names.map fun name => (name, ())))

/-- The sorted names of a list of modules. -/
def moduleNames (modules : List Module) : List String :=
  sortedNames (modules.map (·.name))

/-- Builds the index of a list of modules. -/
def build (modules : List Module) : Except RegistryError Index := do
  let known := Definitions.ofModules modules
  let descriptors ← Descriptor.ofDefinitions known (Entries.values known)
  let canonical ← NameTable.addCanonical [] descriptors
  let names := NameTable.addDeprecated canonical descriptors
  match Entries.get? Name.rootType names with
  | none => throw (.missingTypeIdentity TypeHandle.root)
  | some fallback => pure { descriptors, names, fallback, modules := moduleNames modules }

/-- The type of that canonical or former name. -/
def lookup (index : Index) (name : String) : Option Descriptor :=
  Entries.get? name index.names

/-- The indexed type of that handle. -/
def byHandle (index : Index) (handle : TypeHandle) : Option Descriptor :=
  index.descriptors.find? (·.handle == handle)

/-- The type chain that nodes of a model type carry. -/
def discriminatorOf (index : Index) (handle : TypeHandle) : Option String :=
  (index.byHandle handle).map (·.discriminator)

end Index

end ObjectGraph
