import ObjectGraph.Digest.Sha256
import ObjectGraph.Document
import ObjectGraph.Node

/-!
# Documents and content ids of nodes

A node has two documents. `Node.toDocument` is the node as it is stored, with nested nodes inline.
`Node.canonicalTree` is its content: what the content id is made from.
-/

namespace ObjectGraph

/-! ## Nodes as documents

A node is an object of its header fields, without an id or application id that is missing, and of
its members. Where a declared member has the name of a header field, the member stands in the
object. Numbers that are not finite become null.
-/

/-- The header entries of a node. -/
def Node.headerEntries (n : Node) : List (String × Document) :=
  (Header.typeName.name, .string n.typeName) ::
    (n.id.toList.map fun id => (Header.id.name, .string id)) ++
    (n.applicationId.toList.map fun id => (Header.applicationId.name, .string id))

mutual

/-- The document of a value, with nested nodes inline. -/
def Value.toDocument : Value → Document
  | .null => .null
  | .bool b => .bool b
  | .int n => Document.ofInt64 n
  | .float x => Document.ofFloat x
  | .string s => .string s
  | .node _ content => content.toDocument
  | .list items => .array (itemDocuments items)
  | .map entries => Document.ofEntries (entryDocuments entries)

/-- The document of a node. -/
def Node.toDocument : Node → Document
  | ⟨type, id, app, declared, dynamic⟩ =>
      Document.ofEntries
        (Node.headerEntries ⟨type, id, app, declared, dynamic⟩ ++
          (entryDocuments declared ++ entryDocuments dynamic))

/-- The documents of the elements of a list. -/
def itemDocuments : List Value → List Document
  | [] => []
  | item :: rest => item.toDocument :: itemDocuments rest

/-- Keys with the documents of their values. -/
def entryDocuments : List (String × Value) → List (String × Document)
  | [] => []
  | (key, value) :: rest => (key, value.toDocument) :: entryDocuments rest

end

/-! ## Content ids

The id of a node is made from its content: the type chain, the application id and every member that
is neither named `id` nor transient, with nested nodes by the same rule. `canonicalText` is the one
text of that content, and the id the first half of the digest of the text. A number that is not
finite has no text, so a node whose content holds one has no id.
-/

/-- A value without a canonical text. -/
inductive CanonicalError where
  /-- The number is not finite; the name is that of the nearest map key or member around it. -/
  | nonFiniteFloat (member : String) (value : Binary64)
deriving DecidableEq, Repr

/-- The error in words, with the member and the number. -/
def CanonicalError.message : CanonicalError → String
  | .nonFiniteFloat member value =>
      "non-finite float at member '" ++ member ++ "': " ++ value.nonFiniteText

namespace Name

/-- Whether a member of this name belongs to the content of a node. -/
def isHashed (name : String) : Bool :=
  name != Header.id.name && !isTransient name

end Name

/-- The header entries of a node's content; an application id that is missing is null. -/
def Node.contentHeader (typeName : String) (applicationId : Option String) :
    List (String × Document) :=
  [(Header.typeName.name, .string typeName),
    (Header.applicationId.name, (applicationId.map Document.string).getD .null)]

mutual

/-- The content of a value that stands under the name `member`. -/
def Value.canonicalTree (member : String) : Value → Except CanonicalError Document
  | .null => .ok .null
  | .bool b => .ok (.bool b)
  | .int n => .ok (Document.ofInt64 n)
  | .float x =>
      if h : x.isFinite = true then .ok (.float x h) else .error (.nonFiniteFloat member x)
  | .string s => .ok (.string s)
  | .node _ content => content.canonicalTree
  | .list items => return .array (← canonicalItems member items)
  | .map entries => return Document.ofEntries (← canonicalEntries entries)

/-- The content of a node. -/
def Node.canonicalTree : Node → Except CanonicalError Document
  | ⟨type, _, app, declared, dynamic⟩ => do
      let ofDeclared ← canonicalMembers declared
      let ofDynamic ← canonicalMembers dynamic
      return Document.ofEntries (Node.contentHeader type app ++ (ofDeclared ++ ofDynamic))

/-- The contents of the elements of a list. -/
def canonicalItems (member : String) : List Value → Except CanonicalError (List Document)
  | [] => .ok []
  | item :: rest => return (← item.canonicalTree member) :: (← canonicalItems member rest)

/-- The contents of the entries of a map. -/
def canonicalEntries : List (String × Value) → Except CanonicalError (List (String × Document))
  | [] => .ok []
  | (key, value) :: rest =>
      return (key, ← value.canonicalTree key) :: (← canonicalEntries rest)

/-- The contents of the members that count. -/
def canonicalMembers : List (String × Value) → Except CanonicalError (List (String × Document))
  | [] => .ok []
  | (name, value) :: rest =>
      if Name.isHashed name then
        return (name, ← value.canonicalTree name) :: (← canonicalMembers rest)
      else canonicalMembers rest

end

namespace Node

/-- The canonical text of a node. -/
def canonicalText (n : Node) : Except CanonicalError String :=
  n.canonicalTree.map Document.written

/-- The digest of a text in hexadecimal. -/
def textDigest (text : String) : String :=
  Digest.hexText (Digest.sha256 text.toUTF8.toList)

/-- The number of hexadecimal digits of a content id. -/
def idLength : Nat := 32

/-- The content id of a canonical text. -/
def idOfText (text : String) : String :=
  String.ofList ((textDigest text).toList.take idLength)

/-- The content id of a node. -/
def computeId (n : Node) : Except CanonicalError String :=
  n.canonicalText.map idOfText

end Node

end ObjectGraph
