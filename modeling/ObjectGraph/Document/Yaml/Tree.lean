import ObjectGraph.Binary64
import ObjectGraph.Document
import ObjectGraph.Document.Yaml.Tag
import ObjectGraph.Text

/-!
# Trees of YAML

A text is a tree of scalars, sequences, mappings and aliases. An alias stands for the node of an
anchor, which may be a node that holds the alias itself, so a tree becomes a document only up to a
depth, and only so many aliases are followed. Of equal keys the last one counts.
-/

namespace ObjectGraph.Document.Yaml

/-! ## Scalars

What an unquoted word stands for. A few words are null or a boolean; decimal, hexadecimal, octal and
binary integers and decimal fractions are numbers; everything else is a text, a number with needless
zeros in front included. An integer beyond 64 bits that still fits 128 bits is refused.
-/

/-- Words that are null. -/
def nullWords : List String := ["", "~", "null", "Null", "NULL"]

/-- Words that are true. -/
def trueWords : List String := ["true", "True", "TRUE"]

/-- Words that are false. -/
def falseWords : List String := ["false", "False", "FALSE"]

/-- Infinities and NaN, which have no form in a document. -/
def nonFiniteWords : List String :=
  [".inf", ".Inf", ".INF", "+.inf", "+.Inf", "+.INF", "-.inf", "-.Inf", "-.INF",
    ".nan", ".NaN", ".NAN"]

/-- The value of one or more digits. -/
def digits? (base : Nat) : List Char → Option Nat
  | [] => none
  | cs => cs.foldlM (fun n c => (Text.digitValue? base c).map (n * base + ·)) 0

/-- The value of digits after the mark of their base. -/
def radix? : List Char → Option Nat
  | '0' :: 'x' :: cs => digits? 16 cs
  | '0' :: 'o' :: cs => digits? 8 cs
  | '0' :: 'b' :: cs => digits? 2 cs
  | _ => none

/-- More than one digit with a zero in front. -/
def hasNeedlessZero (digits : List Char) : Bool :=
  1 < digits.length && digits.head? == some '0' && digits.all Char.isDigit

/-- The integer that a word is, whatever its size. -/
def integer? (cs : List Char) : Option Int :=
  let (sign, body) := Text.Numeral.takeSign cs
  let decimal := if hasNeedlessZero body then none else digits? 10 body
  ((radix? body).or decimal).map fun n => if sign == some '-' then -(n : Int) else n

/-- The finite number that a word is, by the decimal grammar. -/
def fraction? (cs : List Char) : Option Binary64 := do
  let n ← Text.Numeral.ofChars? cs
  if n.whole.isEmpty && n.fractionDigits.isEmpty then none else Binary64.ofNumeral? n

/-- What a word that is no integer stands for. -/
def ofWord (s : String) : Document :=
  if nonFiniteWords.contains s then .null
  else if hasNeedlessZero (Text.Numeral.takeSign s.toList).2 then .string s
  else match fraction? s.toList with
    | some x => ofFloat x
    | none => .string s

/-- The bound of signed 128-bit numbers. -/
def wideBound : Int := 0x80000000000000000000000000000000

/-- What an unquoted word stands for; nothing, if it is an integer that is refused. -/
def plain? (s : String) : Option Document :=
  if nullWords.contains s then some .null
  else if trueWords.contains s then some (.bool true)
  else if falseWords.contains s then some (.bool false)
  else match integer? s.toList with
    | some n =>
        match ofInt? n with
        | some d => some d
        | none => if -wideBound ≤ n ∧ n < 2 * wideBound then none else some (ofWord s)
    | none => some (ofWord s)

/-- What a scalar without a tag stands for: only unquoted words are anything but texts. -/
def untagged? (text : String) (isPlain : Bool) : Option Document :=
  if isPlain then plain? text else some (.string text)

/-- What a scalar with a tag stands for: the tag says of which kind the text must be. -/
def tagged? (tag : Tag) (text : String) (isPlain : Bool) : Option Document :=
  if tag == .core "bool" then
    if trueWords.contains text then some (.bool true)
    else if falseWords.contains text then some (.bool false)
    else none
  else if tag == .core "int" then (integer? text.toList).bind ofInt?
  else if tag == .core "float" then
    if nonFiniteWords.contains text then some .null else (fraction? text.toList).map ofFloat
  else if tag == .core "null" then
    if text != "" && nullWords.contains text then some .null else none
  -- A tag of the document's own has no meaning. It is passed over if its name is no text.
  else if tag.isOwn then none
  else if tag.octets.head? == some Tag.markOctet then untagged? text isPlain
  else some (.string text)

/-- What a scalar stands for. -/
def scalar? (text : String) (isPlain : Bool) : Option Tag → Option Document
  | some tag => tagged? tag text isPlain
  | none => untagged? text isPlain

/-! ## Trees -/

/-- What stands in front of a node. -/
structure Properties where
  /-- The number of the anchor. -/
  anchor : Option Nat := none
  tag : Option Tag := none
deriving DecidableEq, Repr

namespace Properties

/-- Whether nothing stands in front of the node. -/
def isEmpty (p : Properties) : Bool :=
  p.anchor.isNone && p.tag.isNone

/-- Whether a sequence or a mapping is refused for its tag: tags of the document's own have no
meaning. -/
def isForeign (p : Properties) : Bool :=
  p.tag.any Tag.isOwn

end Properties

/-- A node of the text. -/
inductive Tree where
  /-- The node of the anchor with a number. -/
  | alias (number : Nat)
  | scalar (properties : Properties) (text : String) (isPlain : Bool)
  | sequence (properties : Properties) (items : List Tree)
  | mapping (properties : Properties) (entries : List (Tree × Tree))

namespace Tree

/-- The node that stands where nothing is written, maybe apart from properties. -/
def nothing (p : Properties) : Tree :=
  .scalar p "" true

section Weight

mutual

/-- The number of steps in which the node is written down: one for a scalar or an alias, one for
each end of a sequence or a mapping. -/
def weight : Tree → Nat
  | .alias _ | .scalar .. => 1
  | .sequence _ items => itemsWeight items + 2
  | .mapping _ entries => entriesWeight entries + 2

/-- The steps of the elements of a sequence. -/
def itemsWeight : List Tree → Nat
  | [] => 0
  | item :: rest => item.weight + itemsWeight rest

/-- The steps of the keys and values of a mapping. -/
def entriesWeight : List (Tree × Tree) → Nat
  | [] => 0
  | (key, value) :: rest => key.weight + value.weight + entriesWeight rest

end

end Weight

section Anchors

mutual

/-- The nodes with anchors, by number, in the order in which they begin. -/
def anchored : Tree → List (Nat × Tree)
  | .alias _ => []
  | .scalar p text isPlain => p.anchor.toList.map (·, .scalar p text isPlain)
  | .sequence p items => p.anchor.toList.map (·, .sequence p items) ++ itemsAnchored items
  | .mapping p entries => p.anchor.toList.map (·, .mapping p entries) ++ entriesAnchored entries

/-- The nodes with anchors among the elements of a sequence. -/
def itemsAnchored : List Tree → List (Nat × Tree)
  | [] => []
  | item :: rest => item.anchored ++ itemsAnchored rest

/-- The nodes with anchors among the keys and values of a mapping. -/
def entriesAnchored : List (Tree × Tree) → List (Nat × Tree)
  | [] => []
  | (key, value) :: rest => key.anchored ++ value.anchored ++ entriesAnchored rest

end

/-- The node of each anchor number. A number that comes again stands for its last node everywhere; a
number that is new is the next one. -/
def anchorNodes (t : Tree) : Array Tree :=
  t.anchored.foldl (fun nodes (number, node) =>
    if number < nodes.size then nodes.setIfInBounds number node else nodes.push node) #[]

end Anchors

section Documents

/-- A part of the way from a tree to a document; the state is the number of aliases that may still
be followed. -/
abbrev Following := StateT Nat Option

/-- The node itself or, for an alias, the node that it stands for. -/
def followed (nodes : Array Tree) : Tree → Following Tree
  | .alias number => do
      let left ← get
      if left = 0 then failure
      set (left - 1)
      nodes[number]?
  | node => pure node

/-- The text of a key; only scalars are keys. -/
def keyText? (nodes : Array Tree) (key : Tree) : Following String := do
  match ← key.followed nodes with
  | .scalar _ text _ => pure text
  | _ => failure

/-- The document of a node, in which sequences and mappings are nested at most `depth` deep. -/
def toDocument? (nodes : Array Tree) (depth : Nat) (t : Tree) : Following Document := do
  match ← t.followed nodes, depth with
  | .scalar p text isPlain, _ => scalar? text isPlain p.tag
  | .sequence p items, depth + 1 =>
      if p.isForeign then failure
      return .array (← items.mapM (toDocument? nodes depth))
  | .mapping p entries, depth + 1 =>
      if p.isForeign then failure
      let entries ← entries.mapM fun (key, value) =>
        return (← key.keyText? nodes, ← toDocument? nodes depth value)
      return ofEntries entries
  | _, _ => failure

end Documents

/-- The most sequences and mappings that may be nested. -/
def depthLimit : Nat := 128

/-- How often aliases are followed, at most, for each step in which the text is written down. -/
def aliasLimit : Nat := 100

/-- The document of a whole text. -/
def document? (t : Tree) : Option Document :=
  (t.toDocument? t.anchorNodes depthLimit).run' (aliasLimit * t.weight)

end Tree

end ObjectGraph.Document.Yaml
