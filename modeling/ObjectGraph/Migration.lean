import ObjectGraph.Node
import ObjectGraph.Node.Identity
import ObjectGraph.Registry
import ObjectGraph.Registry.Index
import ObjectGraph.Text.Quoted
import ObjectGraph.Version

/-!
# Migrations

A migration follows the chain of upgraders of a type from the version of the data to the version
that is asked for. It is complete when it gets there and stalled when no upgrader goes on before. It
fails when an upgrader leads beyond the target, which is seen before its transform runs, or when a
transform fails. Data that is at the target already, or beyond it, is complete as it is.
-/

namespace ObjectGraph

/-! ## Upgraders

An upgrader takes the data of one type from one schema version to a newer one. A table holds at most
one upgrader for a type and a version to start from, so the upgraders of a type form chains. Every
upgrader in a table leads to a newer version: that is part of the table.
-/

/-- One step of a migration. The transform gives the new data or says why it cannot. -/
structure Upgrader (α : Type) where
  typeName : String
  /-- The version that the step reads. -/
  source : Version
  /-- The version that the step produces. -/
  target : Version
  transform : α → Except String α

namespace Upgrader

variable {α : Type}

/-- A step that cannot fail. -/
def infallible (typeName : String) (source target : Version) (transform : α → α) : Upgrader α where
  typeName := typeName
  source := source
  target := target
  transform := fun value => .ok (transform value)

/-- The key of a step for display: the type followed by the version. -/
def displayKey (typeName : String) (version : Version) : String :=
  typeName ++ version.toText

/-- The key of the step that the upgrader takes. -/
def key (u : Upgrader α) : String :=
  displayKey u.typeName u.source

/-- A version as it is shown to a programmer. -/
def versionSummary (v : Version) : String :=
  "SchemaVersion \x7b major: " ++ v.major.toNat.repr ++ ", minor: " ++ v.minor.toNat.repr ++
    ", patch: " ++ v.patch.toNat.repr ++ " \x7d"

/-- The step as it is shown to a programmer. -/
def summary (u : Upgrader α) : String :=
  "Upgrader \x7b type_name: " ++ Text.quoted u.typeName ++ ", from: " ++ versionSummary u.source ++
    ", to: " ++ versionSummary u.target ++ ", .. \x7d"

end Upgrader

/-- Why an upgrader is not accepted. -/
inductive UpgraderFault where
  /-- The version it produces is not newer than the one it reads. -/
  | notNewer
  /-- Another upgrader starts at the same type and version. -/
  | startTaken
deriving DecidableEq, Repr

/-- The fault in words. -/
def UpgraderFault.reason : UpgraderFault → String
  | .notNewer => "to-version must be newer than from-version"
  | .startTaken => "an upgrader from this version is already registered"

/-- A migration that cannot be set up or carried out. -/
inductive MigrationError where
  | invalidUpgrader (typeName : String) (source target : Version) (fault : UpgraderFault)
  /-- No upgrader goes on before the target. -/
  | stalled (typeName : String) (version target : Version)
  /-- An upgrader leads beyond the version that was asked for. -/
  | overshoot (typeName : String) (source reached target : Version)
  | transformFailed (typeName : String) (source reached : Version) (reason : String)
  /-- The recorded version of a node cannot be read. -/
  | invalidVersion (typeName : String) (cause : Version.ParseError)
deriving DecidableEq, Repr

namespace MigrationError

/-- A step between two versions in words. -/
def stepText (typeName : String) (source target : Version) : String :=
  "'" ++ typeName ++ "' " ++ source.toText ++ " -> " ++ target.toText

/-- The error in words; a step is named by its type and its two versions. -/
def message : MigrationError → String
  | .invalidUpgrader typeName source target fault =>
      "invalid upgrader for " ++ stepText typeName source target ++ ": " ++ fault.reason
  | .stalled typeName version target =>
      "no upgrader for '" ++ typeName ++ "' at " ++ version.toText ++ "; target is " ++
        target.toText
  | .overshoot typeName source reached target =>
      "upgrader for " ++ stepText typeName source reached ++ " overshoots target " ++ target.toText
  | .transformFailed typeName source reached reason =>
      "upgrader for " ++ stepText typeName source reached ++ " failed: " ++ reason
  | .invalidVersion typeName cause =>
      "node '" ++ typeName ++ "' has an unreadable schema version: " ++ cause.message

/-- Whether the error reports a wrong declaration of upgraders. -/
def isConfiguration : MigrationError → Bool
  | .invalidUpgrader .. | .overshoot .. => true
  | _ => false

end MigrationError

/-- Upgraders by type and version to start from. -/
structure UpgraderTable (α : Type) where
  entries : List (Upgrader α) := []
  /-- Every step leads to a newer version. -/
  increasing : ∀ u ∈ entries, u.source < u.target := by simp

namespace UpgraderTable

variable {α : Type}

/-- The upgrader for data of a type at a version. -/
def get? (table : UpgraderTable α) (typeName : String) (version : Version) : Option (Upgrader α) :=
  table.entries.find? fun u => u.typeName == typeName && u.source == version

/-- Adds an upgrader that leads to a newer version from a place where none starts yet. -/
def register (table : UpgraderTable α) (u : Upgrader α) : Except MigrationError (UpgraderTable α) :=
  let invalid := MigrationError.invalidUpgrader u.typeName u.source u.target
  if h : u.source < u.target then
    if (table.get? u.typeName u.source).isSome then .error (invalid .startTaken)
    else .ok {
      entries := table.entries ++ [u]
      increasing := by
        intro v hv
        rcases List.mem_append.1 hv with hv | hv
        · exact table.increasing v hv
        · rw [List.mem_singleton.1 hv]
          exact h }
  else .error (invalid .notNewer)

/-- Number of upgraders. -/
def size (table : UpgraderTable α) : Nat :=
  table.entries.length

/-- Keys in increasing order; keys that look the same stand side by side. -/
def sortedKeys (table : UpgraderTable α) : List String :=
  (table.entries.map Upgrader.key).mergeSort fun a b => a ≤ b

/-- The table as it is shown to a programmer. -/
def summary (table : UpgraderTable α) : String :=
  "UpgraderRegistry \x7b upgraders: " ++ Text.quotedList table.sortedKeys ++ " \x7d"

/-- What `get?` finds is an upgrader of that type and version, and leads to a newer one. -/
theorem get?_eq_some {table : UpgraderTable α} {typeName : String} {version : Version}
    {u : Upgrader α} (h : table.get? typeName version = some u) :
    u ∈ table.entries ∧ u.typeName = typeName ∧ u.source = version ∧ version < u.target := by
  have hmem := List.mem_of_find?_eq_some h
  have hkey := List.find?_some h
  simp only [Bool.and_eq_true, beq_iff_eq] at hkey
  exact ⟨hmem, hkey.1, hkey.2, hkey.2 ▸ table.increasing u hmem⟩

end UpgraderTable

/-! ## Following a chain -/

/-- How far a migration is. -/
inductive Phase where
  | pending
  | upgrading
  | complete
  | stalled
deriving DecidableEq, Repr

namespace Phase

/-- Whether nothing more will happen. -/
def isTerminal : Phase → Bool
  | .complete | .stalled => true
  | .pending | .upgrading => false

/-- The name of a phase, in capitals. -/
def name : Phase → String
  | .pending => "PENDING"
  | .upgrading => "UPGRADING"
  | .complete => "COMPLETE"
  | .stalled => "STALLED"

end Phase

/-- The result of a migration that did not fail. -/
structure Outcome (α : Type) where
  value : α
  phase : Phase
  /-- The version of the value. -/
  version : Version
  /-- The version that was asked for. -/
  target : Version
  /-- The number of upgraders that ran. -/
  steps : Nat
  /-- The type whose chain was followed. -/
  typeName : String

namespace Outcome

variable {α : Type}

/-- Whether the target was reached. -/
def isComplete (o : Outcome α) : Bool :=
  o.phase == .complete

/-- Whether the chain ended before the target. -/
def isStalled (o : Outcome α) : Bool :=
  o.phase == .stalled

/-- The value of a complete migration. -/
def intoComplete (o : Outcome α) : Except MigrationError α :=
  if o.isComplete then .ok o.value else .error (.stalled o.typeName o.version o.target)

end Outcome

namespace UpgraderTable

variable {α : Type}

/-- Follows the chain from a version on, where `steps` upgraders ran before. -/
def follow (table : UpgraderTable α) (typeName : String) (target version : Version) (value : α)
    (steps : Nat) : Except MigrationError (Outcome α) :=
  if version < target then
    match _found : table.get? typeName version with
    | none => .ok { value, phase := .stalled, version, target, steps, typeName }
    | some u =>
        if _within : target < u.target then .error (.overshoot typeName version u.target target)
        else match u.transform value with
          | .error reason => .error (.transformFailed typeName version u.target reason)
          | .ok upgraded => table.follow typeName target u.target upgraded (steps + 1)
  else .ok { value, phase := .complete, version, target, steps, typeName }
termination_by target.rank - version.rank
decreasing_by
  have h1 := Version.lt_iff_rank_lt.1 (get?_eq_some _found).2.2.2
  have h2 := Version.le_iff_rank_le.1 _within
  omega

/-- Upgrades data of a type from its version towards a target. -/
def upgrade (table : UpgraderTable α) (value : α) (typeName : String) (current target : Version) :
    Except MigrationError (Outcome α) :=
  table.follow typeName target current value 0

/-- Upgrades a node from its recorded version. The chain is that of the type that the node's type
chain resolves to, and the version that is reached is recorded in the node. -/
def upgradeNode (table : UpgraderTable Node) (index : Index) (n : Node) (target : Version) :
    Except MigrationError (Outcome Node) :=
  let typeName := (index.resolve n.typeName).canonicalName
  match n.schemaVersion with
  | .error cause => .error (.invalidVersion typeName cause)
  | .ok current => do
      let outcome ← table.upgrade n typeName current target
      if outcome.version = current then pure outcome
      else pure { outcome with value := outcome.value.setSchemaVersion outcome.version }

end UpgraderTable

/-! ## Kinds of failure

The errors of the library sorted by what a host program can do about them. A wrong declaration is
fatal, a missing start-up step can be made up for, a failed or stalled migration concerns one piece
of data only.
-/

/-- A failure as a host program sees it. -/
inductive Failure where
  | canonicalization (cause : CanonicalError)
  | property (cause : PropertyError)
  /-- Model types, a registry or upgraders are declared wrongly. -/
  | configuration (reason : String)
  /-- Something was used before it was set up. -/
  | invalidState (reason : String)
  | migration (reason : String)
  | migrationStalled (reason : String)
deriving DecidableEq, Repr

/-- The failure in words, its kind first. -/
def Failure.message : Failure → String
  | .canonicalization cause => "canonicalization error: " ++ cause.message
  | .property cause => "property error: " ++ cause.message
  | .configuration reason => "configuration error: " ++ reason
  | .invalidState reason => "invalid state: " ++ reason
  | .migration reason => "migration failed: " ++ reason
  | .migrationStalled reason => "migration stalled: " ++ reason

/-- A registry that is asked too early is a wrong state, everything else a wrong declaration. -/
def RegistryError.toFailure (e : RegistryError) : Failure :=
  if e.isConfiguration then .configuration e.message else .invalidState e.message

/-- Upgraders that cannot work together are declared wrongly; other errors concern the data. -/
def MigrationError.toFailure (e : MigrationError) : Failure :=
  match e with
  | .invalidUpgrader .. | .overshoot .. => .configuration e.message
  | .stalled .. => .migrationStalled e.message
  | .transformFailed .. | .invalidVersion .. => .migration e.message

end ObjectGraph
