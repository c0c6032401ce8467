import ObjectGraph.Binary64
import ObjectGraph.Entries

/-!
# Documents

A document is what a data file holds: null, booleans, numbers, texts, arrays and objects. A number
is an integer of the joint range of signed and unsigned 64-bit numbers or a finite double. The
entries of an object stand in increasing order of their keys, each key once; `Document.ofEntries`
makes an object of entries in any order.
-/

namespace ObjectGraph

/-- The bound of signed 64-bit numbers; twice as much is the bound of unsigned ones. -/
def integerBound : Int := 0x8000000000000000

/-- A document or a part of one. -/
inductive Document where
  | null
  | bool (b : Bool)
  | integer (n : Int) (lower : -integerBound ≤ n) (upper : n < 2 * integerBound)
  | float (x : Binary64) (finite : x.isFinite = true)
  | string (s : String)
  | array (items : List Document)
  | object (entries : List (String × Document))

namespace Document

instance : Inhabited Document := ⟨.null⟩

/-- A double as a number; one that is not finite has no written form and becomes null. -/
def ofFloat (x : Binary64) : Document :=
  if h : x.isFinite = true then .float x h else .null

/-- A signed 64-bit number. -/
def ofInt64 (n : Int64) : Document :=
  .integer n.toInt
    (by have := Int64.le_toInt n; simp only [integerBound]; omega)
    (by have := Int64.toInt_lt n; simp only [integerBound]; omega)

/-- An integer, if it is in the range of documents. -/
def ofInt? (n : Int) : Option Document :=
  if h : -integerBound ≤ n ∧ n < 2 * integerBound then some (.integer n h.1 h.2) else none

/-- An object of entries in any order; of equal keys the last one is kept. -/
def ofEntries (entries : List (String × Document)) : Document :=
  .object (Entries.sorted entries)

/-- The text of a string. -/
def asString? : Document → Option String
  | .string s => some s
  | _ => none

/-- The entries of an object. -/
def asObject? : Document → Option (List (String × Document))
  | .object entries => some entries
  | _ => none

/-! ## Canonical text

One text for each document: no blanks, entries of an object in the order of their keys as written,
with quotes and escapes. Strings escape the quote, the backslash and the controls below the space
only; integers are written in full, doubles by `Binary64.finiteText`.
-/

/-- Four hexadecimal digits of a control character. -/
def controlEscape (c : Char) : List Char :=
  ['\\', 'u', '0', '0', Nat.digitChar (c.toNat / 16), Nat.digitChar (c.toNat % 16)]

/-- A character between the quotes of a string. -/
def escaped (c : Char) : List Char :=
  match c with
  | '"' => ['\\', '"']
  | '\\' => ['\\', '\\']
  | '\x08' => ['\\', 'b']
  | '\x0c' => ['\\', 'f']
  | '\n' => ['\\', 'n']
  | '\r' => ['\\', 'r']
  | '\t' => ['\\', 't']
  | c => if c.toNat < 0x20 then controlEscape c else [c]

/-- A string with its quotes. -/
def writtenString (s : String) : String :=
  String.ofList ('"' :: s.toList.flatMap escaped ++ ['"'])

/-- A key and its value with a colon between them. -/
def writtenEntry (entry : String × String) : String :=
  entry.1 ++ ":" ++ entry.2

/-- The parts between an opening and a closing bracket, with commas. -/
def bracketed (opening closing : Char) (parts : List String) : String :=
  opening.toString ++ String.intercalate "," parts ++ closing.toString

mutual

/-- The canonical text of a document. -/
def written : Document → String
  | .null => "null"
  | .bool b => if b then "true" else "false"
  | .integer n _ _ => n.repr
  | .float x _ => String.ofList x.finiteText
  | .string s => writtenString s
  | .array items => bracketed '[' ']' (writtenItems items)
  | .object entries =>
      bracketed '\x7b' '\x7d' ((Entries.sorted (writtenEntries entries)).map writtenEntry)

/-- The texts of the elements of an array. -/
def writtenItems : List Document → List String
  | [] => []
  | item :: rest => item.written :: writtenItems rest

/-- Written keys with the texts of their values. -/
def writtenEntries : List (String × Document) → List (String × String)
  | [] => []
  | (key, value) :: rest => (writtenString key, value.written) :: writtenEntries rest

end

end Document

end ObjectGraph
