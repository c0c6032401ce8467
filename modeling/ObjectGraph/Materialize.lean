import ObjectGraph.Document
import ObjectGraph.Registry

/-!
# Documents as nodes

An object with a text as its type chain becomes a node: it is made from the type that the chain
resolves to, keeps the chain as it is written, and gets the other entries as members. Every other
object becomes a map. Data of unknown types is kept in full, as dynamic members.

Each node of a document has a handle of its own: the steps to its object, innermost first.
-/

namespace ObjectGraph

namespace Document

/-- The type chain of an object, if it has a text there. -/
def typeChain? (entries : List (String × Document)) : Option String :=
  (Entries.get? Header.typeName.name entries).bind asString?

end Document

namespace Value

/-- An integer of a document: as it is if it fits 64 bits with sign, else the nearest double. -/
def ofInteger (n : Int) : Value :=
  if n < integerBound then .int (Int64.ofInt n) else .float (Binary64.ofInt n)

end Value

namespace Index

/-- An empty node of the type that a chain resolves to, with the chain as it is written. -/
def instantiateAs (index : Index) (chain : String) : Node :=
  { (index.resolve chain).instantiate with typeName := chain }

mutual

/-- The value of the document at a place. -/
def materializeAt (index : Index) (place : List Nat) : Document → Except PropertyError Value
  | .null => .ok .null
  | .bool b => .ok (.bool b)
  | .integer n _ _ => .ok (Value.ofInteger n)
  | .float x _ => .ok (.float x)
  | .string s => .ok (.string s)
  | .array items => return .list (← materializeItems index place 0 items)
  | .object entries =>
      match Document.typeChain? entries with
      | some chain =>
          return .node ⟨place⟩ (← fill index place 0 entries (index.instantiateAs chain))
      | none => return .map (← materializeEntries index place 0 entries)

/-- The values of the elements of an array from number `i` on. -/
def materializeItems (index : Index) (place : List Nat) (i : Nat) :
    List Document → Except PropertyError (List Value)
  | [] => .ok []
  | item :: rest => do
      let value ← materializeAt index (i :: place) item
      return value :: (← materializeItems index place (i + 1) rest)

/-- The values of the entries of a map from number `i` on. -/
def materializeEntries (index : Index) (place : List Nat) (i : Nat) :
    List (String × Document) → Except PropertyError (List (String × Value))
  | [] => .ok []
  | (key, document) :: rest => do
      let value ← materializeAt index (i :: place) document
      return (key, value) :: (← materializeEntries index place (i + 1) rest)

/-- Writes the entries from number `i` on as members of a node, apart from the type chain. -/
def fill (index : Index) (place : List Nat) (i : Nat) :
    List (String × Document) → Node → Except PropertyError Node
  | [], n => .ok n
  | (key, document) :: rest, n =>
      if key = Header.typeName.name then fill index place (i + 1) rest n
      else do
        let value ← materializeAt index (i :: place) document
        let (_, written) ← n.set key value
        fill index place (i + 1) rest written

end

/-- The value of a document. -/
def materialize (index : Index) (document : Document) : Except PropertyError Value :=
  index.materializeAt [] document

/-- The node of an object's entries. An object without a text as its type chain is a node of the
root type. -/
def materializeObject (index : Index) (entries : List (String × Document)) :
    Except PropertyError Vertex :=
  let chain := (Document.typeChain? entries).getD Name.rootType
  return ⟨⟨[]⟩, ← index.fill [] 0 entries (index.instantiateAs chain)⟩

end Index

end ObjectGraph
