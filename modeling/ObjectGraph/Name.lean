import ObjectGraph.Text

/-!
# Member names

Every node has three header fields with names and types of their own. All other members are named
freely, but a name that is added at run time is checked by `Name.validate`: it is not empty, does
not begin with two at-signs and holds neither of the path separators. Names that begin with one
at-sign ask for detached storage, names that begin with two low lines are transient.
-/

namespace ObjectGraph

/-- The fixed fields of a node. -/
inductive Header where
  /-- The type chain of the node. -/
  | typeName
  /-- The content id. -/
  | id
  /-- The identifier that the host application uses. -/
  | applicationId
deriving DecidableEq, Repr

namespace Header

/-- The name of the field, in a node as in a document. -/
def name : Header → String
  | .typeName => "speckle_type"
  | .id => "id"
  | .applicationId => "applicationId"

/-- The header field of that name. -/
def ofName? (name : String) : Option Header :=
  [typeName, id, applicationId].find? fun header => header.name == name

/-- The values that the field takes, in words. -/
def expects : Header → String
  | .typeName => "a string"
  | .id => "a string or null"
  | .applicationId => "a string or null"

end Header

/-- A member that cannot be written. -/
inductive PropertyError where
  | emptyName
  /-- Two at-signs at the start are kept for markers of the storage. -/
  | reservedPrefix (name : String)
  /-- The character separates the steps of a path. -/
  | invalidCharacter (name : String) (separator : Char)
  /-- A header field got a value of another type. -/
  | headerType (header : Header)
deriving DecidableEq, Repr

/-- The error in words, with the offending name where there is one. -/
def PropertyError.message : PropertyError → String
  | .emptyName => "property names cannot be empty"
  | .reservedPrefix name => "property '" ++ name ++ "' cannot start with '@@'"
  | .invalidCharacter name separator =>
      "property '" ++ name ++ "' cannot contain '" ++ separator.toString ++ "'"
  | .headerType header => "header field '" ++ header.name ++ "' expects " ++ header.expects

namespace Name

/-- The type of a node when nothing more is known; every model type derives from it. -/
def rootType : String := "Base"

/-- The field that records the schema version of a node's data. -/
def schemaVersion : String := "__schemaVersion"

/-- Whether the name is that of a header field. -/
def isHeader (name : String) : Bool :=
  (Header.ofName? name).isSome

/-- Characters that separate the steps of a path. -/
def isPathSeparator (c : Char) : Bool :=
  c == '.' || c == '/'

/-- Whether a member of this name asks for detached storage. -/
def isDetachable (name : String) : Bool :=
  Text.startsWith name "@"

/-- Whether a member of this name is left out of a node's identity. -/
def isTransient (name : String) : Bool :=
  Text.startsWith name "__"

/-- Accepts the names that a member may get at run time. -/
def validate (name : String) : Except PropertyError Unit :=
  if name.isEmpty then .error .emptyName
  else if Text.startsWith name "@@" then .error (.reservedPrefix name)
  else match name.toList.find? isPathSeparator with
    | some separator => .error (.invalidCharacter name separator)
    | none => .ok ()

end Name

end ObjectGraph
