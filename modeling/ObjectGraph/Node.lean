import ObjectGraph.Entries
import ObjectGraph.Name
import ObjectGraph.Value
import ObjectGraph.Version

/-!
# Members of a node

Reading goes through the header fields first, then the declared members, then the dynamic ones.
Writing goes the same way: a header field takes only values of its type, a declared member is
written in place, and any other name is checked and becomes a dynamic member. Declared members are
never removed; removing one leaves it null.
-/

namespace ObjectGraph

/-- The members that an enumeration covers. -/
inductive MemberKind where
  | declared
  | dynamic
  /-- Declared members followed by dynamic ones. -/
  | all
deriving DecidableEq, Repr

namespace Node

/-- A node of that type without members. -/
def new (typeName : String) : Node where
  typeName := typeName
  id := none
  applicationId := none
  declared := []
  dynamic := []

/-- Declares a member, null at first. A dynamic member of the name becomes the declared one and
keeps its value; a name that is declared already stays as it is. -/
def declare (n : Node) (name : String) : Node :=
  if Entries.contains name n.declared then n
  else
    { n with
      declared := Entries.insert name ((Entries.get? name n.dynamic).getD .null) n.declared
      dynamic := Entries.erase name n.dynamic }

/-- A node whose declared members are the given names, all null. -/
def withMembers (typeName : String) (names : List String) : Node :=
  names.foldl declare (new typeName)

/-- The last segment of the type chain. -/
def mostSpecificType (n : Node) : String :=
  (Text.segments ':' n.typeName).getLastD n.typeName

/-- The value of a header field. -/
def header (n : Node) : Header → Value
  | .typeName => .string n.typeName
  | .id => Value.ofString? n.id
  | .applicationId => Value.ofString? n.applicationId

/-- Reads a member: header fields first, then declared members, then dynamic ones. -/
def get? (n : Node) (name : String) : Option Value :=
  match Header.ofName? name with
  | some header => some (n.header header)
  | none => (Entries.get? name n.declared).or (Entries.get? name n.dynamic)

/-- Writes a header field. -/
def setHeader (n : Node) : Header → Value → Except PropertyError Node
  | .typeName, .string s => .ok { n with typeName := s }
  | .id, .string s => .ok { n with id := some s }
  | .id, .null => .ok { n with id := none }
  | .applicationId, .string s => .ok { n with applicationId := some s }
  | .applicationId, .null => .ok { n with applicationId := none }
  | header, _ => .error (.headerType header)

/-- Writes a member and gives the value it had before, if the member was there. -/
def set (n : Node) (name : String) (value : Value) : Except PropertyError (Option Value × Node) :=
  match Header.ofName? name with
  | some header => do
      let written ← n.setHeader header value
      pure (some (n.header header), written)
  | none =>
      match Entries.get? name n.declared with
      | some previous =>
          .ok (some previous, { n with declared := Entries.insert name value n.declared })
      | none => do
          Name.validate name
          pure (Entries.get? name n.dynamic,
            { n with dynamic := Entries.insert name value n.dynamic })

/-- Removes a member and gives its value. A declared member stays and becomes null. -/
def remove (n : Node) (name : String) : Option Value × Node :=
  match Entries.get? name n.declared with
  | some previous => (some previous, { n with declared := Entries.insert name .null n.declared })
  | none =>
      (Entries.get? name n.dynamic, { n with dynamic := Entries.erase name n.dynamic })

/-- Whether there is a declared or dynamic member of that name. -/
def hasMember (n : Node) (name : String) : Bool :=
  Entries.contains name n.declared || Entries.contains name n.dynamic

/-- Whether there is a dynamic member of that name. -/
def isDynamic (n : Node) (name : String) : Bool :=
  Entries.contains name n.dynamic

/-- Members of one kind, in order. -/
def members (n : Node) : MemberKind → List (String × Value)
  | .declared => n.declared
  | .dynamic => n.dynamic
  | .all => n.declared ++ n.dynamic

/-- Names of the members of one kind, in order. -/
def memberNames (n : Node) (kind : MemberKind) : List String :=
  Entries.keys (n.members kind)

/-- Number of declared and dynamic members together. -/
def memberCount (n : Node) : Nat :=
  n.declared.length + n.dynamic.length

/-- The recorded schema version. A field that is missing or null stands for `Version.unmarked`. -/
def schemaVersion (n : Node) : Except Version.ParseError Version :=
  match n.get? Name.schemaVersion with
  | none | some .null => .ok Version.unmarked
  | some (.string s) => Version.ofText s
  | some _ => .error ⟨"", .notText⟩

/-- Records a schema version, in the declared member of the field's name if there is one. -/
def setSchemaVersion (n : Node) (v : Version) : Node :=
  let value := Value.string v.toText
  if Entries.contains Name.schemaVersion n.declared then
    { n with declared := Entries.insert Name.schemaVersion value n.declared }
  else { n with dynamic := Entries.insert Name.schemaVersion value n.dynamic }

end Node

end ObjectGraph
