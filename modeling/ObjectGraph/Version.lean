import ObjectGraph.Text

/-!
# Schema versions

A version names the shape of a node's stored data by three numbers. Versions are ordered by the
major number, then the minor one, then the patch; `ofText` reads the dotted text that `toText`
writes, with blanks around it and zeros or a plus sign before each number allowed.
-/

namespace ObjectGraph

/-- A triple of 32-bit numbers. -/
structure Version where
  major : UInt32
  minor : UInt32
  patch : UInt32
deriving DecidableEq, Repr

namespace Version

/-- The version of data that carries no version field. -/
def unmarked : Version := ⟨1, 0, 0⟩

/-- The number of values that one of the three numbers has. -/
def componentCount : Nat := 0x100000000

/-- The place of a version in the order, as one number. -/
def rank (v : Version) : Nat :=
  (v.major.toNat * componentCount + v.minor.toNat) * componentCount + v.patch.toNat

/-- The major number decides first, then the minor one, then the patch. -/
instance : LT Version where
  lt a b := a.major < b.major ∨
    (a.major = b.major ∧ (a.minor < b.minor ∨ (a.minor = b.minor ∧ a.patch < b.patch)))

instance : DecidableRel (fun a b : Version => a < b) := fun a b =>
  inferInstanceAs (Decidable (a.major < b.major ∨
    (a.major = b.major ∧ (a.minor < b.minor ∨ (a.minor = b.minor ∧ a.patch < b.patch)))))

instance : LE Version where
  le a b := ¬ b < a

instance : DecidableRel (fun a b : Version => a ≤ b) := fun a b =>
  inferInstanceAs (Decidable (¬ b < a))

/-- The order of versions is the order of their ranks. -/
theorem lt_iff_rank_lt {a b : Version} : a < b ↔ a.rank < b.rank := by
  have hb := b.minor.toNat_lt
  have hb' := b.patch.toNat_lt
  have ha := a.minor.toNat_lt
  have ha' := a.patch.toNat_lt
  change (_ ∨ _) ↔ _
  simp only [rank, componentCount, UInt32.lt_iff_toNat_lt, ← UInt32.toNat_inj]
  omega

theorem le_iff_rank_le {a b : Version} : a ≤ b ↔ a.rank ≤ b.rank := by
  change ¬ b < a ↔ _
  rw [lt_iff_rank_lt, Nat.not_lt]

/-- The later of two versions. -/
def later (a b : Version) : Version :=
  if a < b then b else a

/-- The three numbers in decimal with dots between them. -/
def toText (v : Version) : String :=
  Text.joined '.' [v.major.toNat.repr, v.minor.toNat.repr, v.patch.toNat.repr]

/-- What is wrong with a version text. -/
inductive Fault where
  /-- There are fewer or more than three parts. -/
  | count
  /-- A part is not a number of 32 bits. -/
  | component
  /-- The version field holds no text at all. -/
  | notText
deriving DecidableEq, Repr

/-- The fault in words. -/
def Fault.reason : Fault → String
  | .count => "expected three dot-separated components"
  | .component => "components must be unsigned integers"
  | .notText => "version field must be a string"

/-- A text that is not a version, as it was given. -/
structure ParseError where
  input : String
  fault : Fault
deriving DecidableEq, Repr

/-- The error in words, with the text as it was given. -/
def ParseError.message (e : ParseError) : String :=
  "invalid schema version '" ++ e.input ++ "': " ++ e.fault.reason

/-- A number of 32 bits in decimal. -/
def component? (part : String) : Option UInt32 :=
  (Text.readUnsigned? (componentCount - 1) part.toList).map UInt32.ofNat

/-- The first part as a number, and the parts after it. -/
def takeComponent : List String → Except Fault (UInt32 × List String)
  | [] => .error .count
  | part :: rest =>
      match component? part with
      | some n => .ok (n, rest)
      | none => .error .component

/-- Exactly three parts; the first fault from the left is reported. -/
def ofParts (parts : List String) : Except Fault Version := do
  let (major, rest) ← takeComponent parts
  let (minor, rest) ← takeComponent rest
  let (patch, rest) ← takeComponent rest
  if rest.isEmpty then pure ⟨major, minor, patch⟩ else throw .count

/-- Reads a version; an error repeats the text with its blanks. -/
def ofText (s : String) : Except ParseError Version :=
  (ofParts (Text.segments '.' (Text.trim s))).mapError (⟨s, ·⟩)

end Version

end ObjectGraph
