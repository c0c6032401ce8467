import ObjectGraph.Document.Yaml.Tag
import ObjectGraph.Document.Yaml.Text

/-!
# Tokens of YAML

The text is cut into tokens from left to right. Indentation is turned into opening and closing
tokens of blocks. A key of a mapping is recognised only by the colon after it, so the place of every
piece that may turn out to be a key is remembered: a key stands on one line, is short, and outside
of brackets only where a new entry may begin.
-/

namespace ObjectGraph.Document.Yaml

/-- A piece of the text, or the begin or end of a block. -/
inductive Token where
  | directive (d : Directive)
  | documentStart
  | documentEnd
  | blockSequence
  | blockMapping
  | blockEnd
  | openSequence
  | closeSequence
  | openMapping
  | closeMapping
  | comma
  /-- The hyphen in front of an element. -/
  | entry
  | key
  | value
  | anchor (name : String)
  | alias (name : String)
  | tag (t : WrittenTag)
  | scalar (text : String) (isPlain : Bool)
deriving DecidableEq, Repr

/-- A piece that may turn out to be a key. -/
structure PossibleKey where
  /-- Whether nothing else is allowed here. -/
  required : Bool
  /-- The number of tokens before it. -/
  position : Nat
  mark : Mark

/-- A text that is partly cut into tokens. -/
structure Scanner where
  cursor : Cursor
  tokens : Array Token := #[]
  /-- The number of open brackets. -/
  flow : Nat := 0
  /-- The column of the innermost block; `-1` outside of all blocks. -/
  indent : Int := -1
  /-- The columns of the blocks around it. -/
  outer : List Int := []
  /-- Whether a key may begin here. -/
  keyAllowed : Bool := true
  /-- The piece that may be a key, outside of brackets and in each open one, innermost first. -/
  keys : List (Option PossibleKey) := [none]

namespace Scanner

/-- The place that the scanner has come to. -/
def mark (s : Scanner) : Mark := s.cursor.mark

/-- The column of that place. -/
def column (s : Scanner) : Int := s.cursor.mark.column

/-- Whether a bracket is open. -/
def inFlow (s : Scanner) : Bool := s.flow != 0

/-- Appends a token. -/
def emit (s : Scanner) (t : Token) : Scanner :=
  { s with tokens := s.tokens.push t }

/-- Goes on behind `n` ASCII characters of the line. -/
def advance (s : Scanner) (n : Nat) : Scanner :=
  { s with cursor := ⟨s.cursor.rest.drop n, s.cursor.mark.skip n⟩ }

/-- Goes on at another place. -/
def moveTo (s : Scanner) (cursor : Cursor) : Scanner :=
  { s with cursor }

/-- Skips blanks, comments and line breaks. Tabs count as blanks only where no entry can begin. -/
def skipBlanks (inFlow inComment keyAllowed : Bool) (m : Mark) : List Char → Bool × Cursor
  | [] => (keyAllowed, ⟨[], m⟩)
  | c :: rest =>
      if isBreak c then skipBlanks inFlow false (keyAllowed || !inFlow) m.nextLine rest
      else if inComment || c == ' ' || (c == '\t' && (inFlow || !keyAllowed)) ||
          (c == '\ufeff' && m.column == 0) then
        skipBlanks inFlow inComment keyAllowed (m.past c) rest
      else if c == '#' then skipBlanks inFlow true keyAllowed (m.past c) rest
      else (keyAllowed, ⟨c :: rest, m⟩)

/-- Goes on at the next character that belongs to a token. -/
def toToken (s : Scanner) : Scanner :=
  let (keyAllowed, cursor) := skipBlanks s.inFlow false s.keyAllowed s.mark s.cursor.rest
  { s with keyAllowed, cursor }

section Keys

/-- Gives up the piece that might have been a key; refused if it had to be one. -/
def dropKey (s : Scanner) : Option Scanner :=
  match s.keys with
  | some k :: outer => if k.required then none else some { s with keys := none :: outer }
  | _ => some s

/-- Remembers that a key may begin here. -/
def saveKey (s : Scanner) : Option Scanner :=
  if s.keyAllowed then do
    let s ← s.dropKey
    let here : PossibleKey := ⟨!s.inFlow && s.indent == s.column, s.tokens.size, s.mark⟩
    pure { s with keys := some here :: s.keys.drop 1 }
  else some s

/-- The longest key, in octets. -/
def keyLength : Nat := 1024

/-- The piece that is a key, now that a colon follows it; refused if it had to be a key and is
none. -/
def takeKey (s : Scanner) : Option (Option PossibleKey × Scanner) :=
  match s.keys with
  | some k :: outer =>
      if k.mark.line < s.mark.line || k.mark.octets + keyLength < s.mark.octets then
        if k.required then none else some (none, { s with keys := none :: outer })
      else some (some k, { s with keys := none :: outer })
  | _ => some (none, s)

end Keys

section Blocks

/-- Closes the blocks that are indented further than a column. -/
def closeBlocks (column : Int) (tokens : Array Token) (indent : Int) :
    List Int → Array Token × Int × List Int
  | [] => if column < indent then (tokens.push .blockEnd, -1, []) else (tokens, indent, [])
  | next :: outer =>
      if column < indent then closeBlocks column (tokens.push .blockEnd) next outer
      else (tokens, indent, next :: outer)

/-- Closes the blocks that are indented further than a column. Inside brackets there are none. -/
def unroll (s : Scanner) (column : Int) : Scanner :=
  if s.inFlow then s
  else
    let (tokens, indent, outer) := closeBlocks column s.tokens s.indent s.outer
    { s with tokens, indent, outer }

/-- Opens a block at a column if it is indented further than the block around it. The token goes in
front of the tokens from `position` on. -/
def roll (s : Scanner) (column : Int) (position : Nat) (t : Token) : Scanner :=
  if !s.inFlow && s.indent < column then
    { s with
      tokens := s.tokens.insertIdxIfInBounds position t
      indent := column
      outer := s.indent :: s.outer }
  else s

end Blocks

section Fetch

/-- The mark of a document's begin or end. -/
def fetchMarker (s : Scanner) (t : Token) : Option Scanner := do
  let s ← (s.unroll (-1)).dropKey
  pure (({ s with keyAllowed := false }.emit t).advance 3)

/-- A line in front of a document. -/
def fetchDirective (s : Scanner) : Option Scanner := do
  let s ← (s.unroll (-1)).dropKey
  let s := s.advance 1
  let (directive, after) ← Directive.read? s.cursor.rest
  pure (({ s with keyAllowed := false }.emit (.directive directive)).advance
    (s.cursor.rest.length - after.length))

/-- An opening bracket. -/
def fetchOpen (s : Scanner) (t : Token) : Option Scanner := do
  let s ← s.saveKey
  pure
    (({ s with flow := s.flow + 1, keys := none :: s.keys, keyAllowed := true }.emit t).advance 1)

/-- A closing bracket. -/
def fetchClose (s : Scanner) (t : Token) : Option Scanner := do
  let s ← s.dropKey
  let s := if s.inFlow then { s with flow := s.flow - 1, keys := s.keys.drop 1 } else s
  pure (({ s with keyAllowed := false }.emit t).advance 1)

/-- A comma between brackets. -/
def fetchComma (s : Scanner) : Option Scanner := do
  let s ← s.dropKey
  pure (({ s with keyAllowed := true }.emit .comma).advance 1)

/-- The hyphen in front of an element. -/
def fetchEntry (s : Scanner) : Option Scanner := do
  if !s.inFlow && !s.keyAllowed then none
  else
    let s ← (s.roll s.column s.tokens.size .blockSequence).dropKey
    pure (({ s with keyAllowed := true }.emit .entry).advance 1)

/-- The question mark in front of a key. -/
def fetchKey (s : Scanner) : Option Scanner := do
  if !s.inFlow && !s.keyAllowed then none
  else
    let s ← (s.roll s.column s.tokens.size .blockMapping).dropKey
    pure (({ s with keyAllowed := !s.inFlow }.emit .key).advance 1)

/-- The colon after a key. -/
def fetchValue (s : Scanner) : Option Scanner := do
  let (key, s) ← s.takeKey
  match key with
  | some k =>
      let s :=
        { s with
          tokens := s.tokens.insertIdxIfInBounds k.position .key
          keyAllowed := false }
      pure (((s.roll k.mark.column k.position .blockMapping).emit .value).advance 1)
  | none =>
      if !s.inFlow && !s.keyAllowed then none
      else
        let s := s.roll s.column s.tokens.size .blockMapping
        pure (({ s with keyAllowed := !s.inFlow }.emit .value).advance 1)

/-- The name of an anchor or an alias. -/
def fetchName (s : Scanner) (token : String → Token) : Option Scanner := do
  let s ← s.saveKey
  let s := s.advance 1
  let name := s.cursor.rest.takeWhile isNameChar
  let after := s.cursor.rest.drop name.length
  let ends := atWordEnd after || after.head?.any fun c => "?:,]\x7d%@`".toList.contains c
  if name.isEmpty || !ends then none
  else pure (({ s with keyAllowed := false }.emit (token (String.ofList name))).advance name.length)

/-- A tag. -/
def fetchTag (s : Scanner) : Option Scanner := do
  let s ← s.saveKey
  let s := s.advance 1
  let (tag, after) ← WrittenTag.read? s.cursor.rest
  if atWordEnd after || (s.inFlow && after.head? == some ',') then
    pure (({ s with keyAllowed := false }.emit (.tag tag)).advance
      (s.cursor.rest.length - after.length))
  else none

/-- A text in quotes. -/
def fetchQuoted (s : Scanner) (isDouble : Bool) : Option Scanner := do
  let s ← s.saveKey
  let s := s.advance 1
  let (text, after) ←
    if isDouble then doubleQuoted .text [] .empty s.mark s.cursor.rest
    else singleQuoted [] .empty s.mark s.cursor.rest
  pure (({ s with keyAllowed := false }.emit (.scalar text false)).moveTo after)

/-- A block of lines. -/
def fetchBlock (s : Scanner) (folds : Bool) : Option Scanner := do
  let s ← s.dropKey
  let s := s.advance 1
  let (text, after) ← blockText folds s.indent s.mark s.cursor.rest
  pure (({ s with keyAllowed := true }.emit (.scalar text false)).moveTo after)

/-- A plain text. -/
def fetchPlain (s : Scanner) : Option Scanner := do
  let s ← s.saveKey
  let read ← plainText s.inFlow (s.indent + 1) [] .empty s.mark s.cursor.rest
  pure (({ s with keyAllowed := read.endsLine }.emit (.scalar read.text true)).moveTo read.after)

/-- Characters that a plain text cannot begin with. -/
def isIndicator (c : Char) : Bool :=
  "-?:,[]\x7b\x7d#&*!|>'\"%@`".toList.contains c

/-- Whether a plain text begins here. -/
def startsPlain (s : Scanner) (c : Char) (rest : List Char) : Bool :=
  !(isIndicator c || isSpacing c || isBreak c) ||
    (c == '-' && !(rest.head?.any isSpacing)) ||
    (!s.inFlow && (c == '?' || c == ':') && !atWordEnd rest)

/-- Reads the token that begins with the character `c`. -/
def fetch (s : Scanner) (c : Char) (rest : List Char) : Option Scanner :=
  let cs := c :: rest
  if s.mark.column == 0 && c == '%' then s.fetchDirective
  else if s.mark.column == 0 && atMarker '-' cs then s.fetchMarker .documentStart
  else if s.mark.column == 0 && atMarker '.' cs then s.fetchMarker .documentEnd
  else if c == '[' then s.fetchOpen .openSequence
  else if c == '\x7b' then s.fetchOpen .openMapping
  else if c == ']' then s.fetchClose .closeSequence
  else if c == '\x7d' then s.fetchClose .closeMapping
  else if c == ',' then s.fetchComma
  else if c == '-' && atWordEnd rest then s.fetchEntry
  else if c == '?' && (s.inFlow || atWordEnd rest) then s.fetchKey
  else if c == ':' && (s.inFlow || atWordEnd rest) then s.fetchValue
  else if c == '*' then s.fetchName .alias
  else if c == '&' then s.fetchName .anchor
  else if c == '!' then s.fetchTag
  else if c == '|' && !s.inFlow then s.fetchBlock false
  else if c == '>' && !s.inFlow then s.fetchBlock true
  else if c == '\'' then s.fetchQuoted false
  else if c == '"' then s.fetchQuoted true
  else if s.startsPlain c rest then s.fetchPlain
  else none

/-- Closes all blocks at the end of the text. -/
def finish (s : Scanner) : Option (List Token) :=
  (s.unroll (-1)).dropKey.map fun s => s.tokens.toList

/-- Cuts the rest of a text into tokens. Every token takes at least one character. -/
def readAll (s : Scanner) : Option (List Token) :=
  let here := s.toToken
  match here.cursor.rest with
  | [] => here.finish
  | c :: rest =>
      match (here.unroll here.column).fetch c rest with
      | none => none
      | some next =>
          -- Each of the readers goes on by a character at least, so the test never fails.
          if _shorter : next.cursor.rest.length < s.cursor.rest.length then next.readAll else none
termination_by s.cursor.rest.length

end Fetch

end Scanner

/-- The tokens of a text. -/
def tokens? (text : String) : Option (List Token) :=
  if text.toList.all isAllowed then
    Scanner.readAll { cursor := ⟨unifyBreaks text.toList, {}⟩ }
  else none

end ObjectGraph.Document.Yaml
