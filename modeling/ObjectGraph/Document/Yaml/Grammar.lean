import ObjectGraph.Document.Yaml.Token
import ObjectGraph.Document.Yaml.Tree
import ObjectGraph.Entries

/-!
# The grammar of YAML

A text is cut into tokens, the tokens are put together to a tree of scalars, sequences, mappings and
aliases, and the tree becomes a document. A text without any content is null, and a text with more
than one document is refused. Sequences and mappings may be nested 128 deep.
-/

namespace ObjectGraph.Document.Yaml

/-- The tokens that are left, what handles stand for, and the numbers of the anchors that were
met. -/
structure Builder where
  tokens : List Token
  handles : Handles := .standard
  anchors : List (String × Nat) := []

/-- A part of the grammar: it takes tokens and gives a result, or refuses them. -/
abbrev Grammar := StateT Builder Option

namespace Grammar

/-- The next token, which stays. -/
def peek : Grammar (Option Token) :=
  return (← get).tokens.head?

/-- Drops the next token. -/
def skip : Grammar Unit :=
  modify fun b => { b with tokens := b.tokens.drop 1 }

/-- Takes the next token if it is the given one. -/
def accept (t : Token) : Grammar Bool := do
  if (← peek) == some t then
    skip
    pure true
  else pure false

/-- Whether the next token is one of the given ones. -/
def comes (ts : List Token) : Grammar Bool :=
  return (← peek).any ts.contains

/-- The anchor in front of a node. Its number is the number of names that were met before, so an
anchor with an old name takes a number that the next new name takes again. -/
def anchor? : Grammar (Option Nat) := do
  match ← peek with
  | some (.anchor name) =>
      skip
      let number := (← get).anchors.length
      modify fun b => { b with anchors := Entries.insert name number b.anchors }
      pure (some number)
  | _ => pure none

/-- The tag in front of a node. -/
def tag? : Grammar (Option Tag) := do
  match ← peek with
  | some (.tag written) =>
      skip
      let tag ← (← get).handles.resolve? written
      pure (some tag)
  | _ => pure none

/-- An anchor and a tag in front of a node, in either order. -/
def properties : Grammar Properties := do
  let anchor ← anchor?
  let tag ← tag?
  if anchor.isNone && tag.isSome then return { anchor := ← anchor?, tag }
  else return { anchor, tag }

mutual

/-- A node. Blocks are allowed outside of brackets only, and a sequence that is not indented only as
the key or value of a mapping. -/
def node (inBlock mayBeFlat : Bool) : Nat → Grammar Tree
  | 0 => failure
  | fuel + 1 => do
      if let some (.alias name) ← peek then
        skip
        return .alias (← Entries.get? name (← get).anchors)
      let p ← properties
      content inBlock mayBeFlat p fuel

/-- A node after its properties. It may be missing only if it has some. -/
def content (inBlock mayBeFlat : Bool) (p : Properties) : Nat → Grammar Tree
  | 0 => failure
  | fuel + 1 => do
      match ← peek with
      | some (.scalar text isPlain) =>
          skip
          pure (.scalar p text isPlain)
      | some .openSequence =>
          skip
          return .sequence p (← flowItems true fuel)
      | some .openMapping =>
          skip
          return .mapping p (← flowEntries true fuel)
      | next =>
          if next == some .entry && mayBeFlat then return .sequence p (← flatItems fuel)
          else if next == some .blockSequence && inBlock then
            skip
            return .sequence p (← blockItems fuel)
          else if next == some .blockMapping && inBlock then
            skip
            return .mapping p (← blockEntries fuel)
          else if p.isEmpty then failure
          else pure (.nothing p)

/-- A node, unless one of the given tokens comes. -/
def optional (stops : List Token) (inBlock mayBeFlat : Bool) : Nat → Grammar Tree
  | 0 => failure
  | fuel + 1 => do
      if ← comes stops then pure (.nothing {}) else node inBlock mayBeFlat fuel

/-- The elements of an indented sequence. -/
def blockItems : Nat → Grammar (List Tree)
  | 0 => failure
  | fuel + 1 => do
      if ← accept .blockEnd then pure []
      else if ← accept .entry then
        let item ← optional [.entry, .blockEnd] true false fuel
        return item :: (← blockItems fuel)
      else failure

/-- The elements of a sequence at the column of its mapping. -/
def flatItems : Nat → Grammar (List Tree)
  | 0 => failure
  | fuel + 1 => do
      if ← accept .entry then
        let item ← optional [.entry, .key, .value, .blockEnd] true false fuel
        return item :: (← flatItems fuel)
      else pure []

/-- The entries of an indented mapping. -/
def blockEntries : Nat → Grammar (List (Tree × Tree))
  | 0 => failure
  | fuel + 1 => do
      if ← accept .blockEnd then pure []
      else if ← accept .key then
        let key ← optional [.key, .value, .blockEnd] true true fuel
        let value ←
          if ← accept .value then optional [.key, .value, .blockEnd] true true fuel
          else pure (.nothing {})
        return (key, value) :: (← blockEntries fuel)
      else failure

/-- The elements of a sequence in brackets, up to the closing one. A key makes a mapping of one
entry; if nothing stands behind its question mark, the token that shows so is dropped with it. -/
def flowItems (isFirst : Bool) : Nat → Grammar (List Tree)
  | 0 => failure
  | fuel + 1 => do
      if ← accept .closeSequence then return []
      if !isFirst then
        unless ← accept .comma do failure
        if ← accept .closeSequence then return []
      if ← accept .key then
        let key ←
          if ← comes [.value, .comma, .closeSequence] then do
            skip
            pure (.nothing {})
          else node false false fuel
        let value ←
          if ← accept .value then optional [.comma, .closeSequence] false false fuel
          else pure (.nothing {})
        return .mapping {} [(key, value)] :: (← flowItems false fuel)
      else
        let item ← node false false fuel
        return item :: (← flowItems false fuel)

/-- The entries of a mapping in braces, up to the closing one. A node without a colon is a key
without a value. -/
def flowEntries (isFirst : Bool) : Nat → Grammar (List (Tree × Tree))
  | 0 => failure
  | fuel + 1 => do
      if ← accept .closeMapping then return []
      if !isFirst then
        unless ← accept .comma do failure
        if ← accept .closeMapping then return []
      if ← accept .key then
        let key ← optional [.value, .comma, .closeMapping] false false fuel
        let value ←
          if ← accept .value then optional [.comma, .closeMapping] false false fuel
          else pure (.nothing {})
        return (key, value) :: (← flowEntries false fuel)
      else
        let key ← node false false fuel
        return (key, .nothing {}) :: (← flowEntries false fuel)

end

/-- The lines in front of a document: the version at most once, and no handle twice. Gives whether
there are any. -/
def directives (hasVersion : Bool) (declared : Handles) : Nat → Grammar Bool
  | 0 => failure
  | fuel + 1 => do
      match ← peek with
      | some (.directive .version) =>
          skip
          if hasVersion then failure
          directives true declared fuel
      | some (.directive (.handle name start)) =>
          skip
          if Entries.contains name declared then failure
          directives hasVersion (declared ++ [(name, start)]) fuel
      | _ =>
          modify fun b => { b with handles := declared ++ b.handles }
          pure (hasVersion || !declared.isEmpty)

/-- Whether the next token is one before which a document is missing. -/
def documentIsMissing : Grammar Bool := do
  match ← peek with
  | none | some (.directive _) | some .documentStart | some .documentEnd => pure true
  | _ => pure false

/-- The only document of a text; an empty text is a missing node. -/
def onlyDocument (fuel : Nat) : Grammar Tree := do
  if (← peek).isNone then return .nothing {}
  let hasDirectives ← directives false [] fuel
  let isExplicit ← accept .documentStart
  if hasDirectives && !isExplicit then failure
  let root ←
    if isExplicit && (← documentIsMissing) then pure (.nothing {})
    else node true false fuel
  -- Marks of the end may follow, but no second document.
  let rest := (← get).tokens.dropWhile (· == .documentEnd)
  unless rest.isEmpty do failure
  pure root

end Grammar

/-- The tree of a list of tokens. Between two tokens that are taken, the grammar goes through at
most four of its parts. -/
def tree? (tokens : List Token) : Option Tree :=
  ((Grammar.onlyDocument (4 * tokens.length + 4)).run { tokens }).map Prod.fst

/-- The document of a YAML text. -/
def read? (text : String) : Option Document := do
  let tree ← tree? (← tokens? text)
  tree.document?

end ObjectGraph.Document.Yaml
