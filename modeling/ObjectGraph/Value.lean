import ObjectGraph.Binary64
import ObjectGraph.Entries

/-!
# Values and nodes

A value is a primitive, a node, a list of values or a map of values with text keys in the order in
which they were written. A node has three header fields, the members that its type declares and the
members added at run time. A value refers to a node through a handle: values with the same handle
share one node, and equal nodes may have different handles.
-/

namespace ObjectGraph

/-- The identity of a shared node: the place where it was made, as the list of steps to it. -/
structure Handle where
  steps : List Nat
deriving DecidableEq, Repr

mutual

/-- The value of a member. -/
inductive Value where
  | null
  | bool (b : Bool)
  | int (n : Int64)
  | float (x : Binary64)
  | string (s : String)
  | node (handle : Handle) (content : Node)
  | list (items : List Value)
  | map (entries : List (String × Value))

/-- An object of the graph. -/
structure Node where
  typeName : String
  id : Option String
  applicationId : Option String
  /-- Members that the type declares, in order of declaration. -/
  declared : List (String × Value)
  /-- Members added at run time, in order of their first write. -/
  dynamic : List (String × Value)

end

instance : Inhabited Value := ⟨.null⟩

/-- A node together with its identity. -/
structure Vertex where
  handle : Handle
  node : Node

namespace Value

/-- Whether the value is null. -/
def isNull : Value → Bool
  | .null => true
  | _ => false

/-- Whether the value holds no other values. -/
def isPrimitive : Value → Bool
  | .node .. | .list _ | .map _ => false
  | _ => true

/-- The text of a string. -/
def asString? : Value → Option String
  | .string s => some s
  | _ => none

/-- The integer, if the value is one. A double is none, even with a whole value. -/
def asInt? : Value → Option Int64
  | .int n => some n
  | _ => none

/-- Both kinds of numbers, an integer as the nearest double. -/
def asFloat? : Value → Option Binary64
  | .float x => some x
  | .int n => some (Binary64.ofInt n.toInt)
  | _ => none

/-- The truth value, if the value is one. -/
def asBool? : Value → Option Bool
  | .bool b => some b
  | _ => none

/-- The node with its handle, if the value is one. -/
def asVertex? : Value → Option Vertex
  | .node handle content => some ⟨handle, content⟩
  | _ => none

/-- The elements of a list. -/
def asList? : Value → Option (List Value)
  | .list items => some items
  | _ => none

/-- The entries of a map. -/
def asMap? : Value → Option (List (String × Value))
  | .map entries => some entries
  | _ => none

/-- A text, or null where there is none. -/
def ofString? : Option String → Value
  | some s => .string s
  | none => .null

end Value

/-- The value that refers to a node. -/
def Vertex.toValue (v : Vertex) : Value :=
  .node v.handle v.node

/-! ## Equality

Values are equal when they have the same content. Numbers are compared as numbers of their own kind,
so NaN differs from itself; maps and members are compared by key without regard to their order; two
references to one shared node are equal whatever the node holds.
-/

mutual

/-- Equality of content, where references to the same node are always equal. -/
def Value.equals : Value → Value → Bool
  | .null, .null => true
  | .bool a, .bool b => a == b
  | .int a, .int b => a == b
  | .float a, .float b => a.equals b
  | .string a, .string b => a == b
  | .node h a, .node k b => h == k || a.equals b
  | .list as, .list bs => listEquals as bs
  | .map as, .map bs => as.length == bs.length && entriesWithin as bs
  | _, _ => false

/-- Equal header fields and, in each part, equal members. -/
def Node.equals : Node → Node → Bool
  | ⟨type, id, app, declared, dynamic⟩, other =>
      type == other.typeName && id == other.id && app == other.applicationId &&
        (declared.length == other.declared.length && entriesWithin declared other.declared) &&
        (dynamic.length == other.dynamic.length && entriesWithin dynamic other.dynamic)

/-- Lists of the same length with equal elements. -/
def listEquals : List Value → List Value → Bool
  | [], [] => true
  | a :: as, b :: bs => a.equals b && listEquals as bs
  | _, _ => false

/-- Every entry of the first list has an equal one of the same key in the second. -/
def entriesWithin : List (String × Value) → List (String × Value) → Bool
  | [], _ => true
  | (key, a) :: rest, others =>
      (match Entries.get? key others with
        | some b => a.equals b
        | none => false) && entriesWithin rest others

end

end ObjectGraph
