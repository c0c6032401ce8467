import ObjectGraph.Text

/-!
# Texts of YAML scalars

The four ways to write a text: plain, in single quotes, in double quotes with escapes, and as a
block of lines. Each reader goes through the characters once and gives the text with what is left
after it. Collected characters stand latest first.
-/

namespace ObjectGraph.Document.Yaml

/-! ## Lines

Places in a text, the characters that end lines and words, and the folding of line breaks inside
scalars: the blanks around a single break become one space, and of several breaks all but the first
are kept.
-/

/-- A place in the text. -/
structure Mark where
  line : Nat := 0
  column : Nat := 0
  /-- The octets in front of the place, in its line. -/
  octets : Nat := 0
deriving DecidableEq, Repr

namespace Mark

/-- The place after a character of the line. -/
def past (m : Mark) (c : Char) : Mark :=
  { m with column := m.column + 1, octets := m.octets + c.utf8Size }

/-- The place `n` ASCII characters further in the line. -/
def skip (m : Mark) (n : Nat) : Mark :=
  { m with column := m.column + n, octets := m.octets + n }

/-- The start of the next line. -/
def nextLine (m : Mark) : Mark :=
  { line := m.line + 1 }

end Mark

/-- Text that is still to be read, with its place. -/
structure Cursor where
  rest : List Char
  mark : Mark

/-- Characters that end a line. -/
def isBreak (c : Char) : Bool :=
  c == '\n' || c == '\r' || c == '\u0085' || c == '\u2028' || c == '\u2029'

/-- Blanks inside a line. -/
def isSpacing (c : Char) : Bool :=
  c == ' ' || c == '\t'

/-- Names of anchors, of lines in front of a document and of handles consist of these characters. -/
def isNameChar (c : Char) : Bool :=
  c.isAlphanum || c == '_' || c == '-'

/-- Whether a word ends here: at a blank, at a line break or at the end. -/
def atWordEnd : List Char → Bool
  | [] => true
  | c :: _ => isSpacing c || isBreak c

/-- Whether a line begins with the given mark of a document and the mark stands alone. -/
def atMarker (marker : Char) : List Char → Bool
  | a :: b :: c :: rest => a == marker && b == marker && c == marker && atWordEnd rest
  | _ => false

/-- Whether a document begins or ends at this line start. -/
def atDocumentMarker (m : Mark) (cs : List Char) : Bool :=
  m.column == 0 && (atMarker '-' cs || atMarker '.' cs)

/-- A line break as it is kept: the common ones become a line feed. -/
def keptBreak (c : Char) : Char :=
  if c == '\u2028' || c == '\u2029' then c else '\n'

/-- Characters that a text may consist of. -/
def isAllowed (c : Char) : Bool :=
  let n := c.toNat
  n == 0x09 || n == 0x0a || n == 0x0d || (0x20 ≤ n && n ≤ 0x7e) || n == 0x85 ||
    (0xa0 ≤ n && n ≤ 0xd7ff) || (0xe000 ≤ n && n ≤ 0xfffd) || 0x10000 ≤ n

/-- Line breaks with a carriage return and a line feed as single line feeds. -/
def unifyBreaks : List Char → List Char
  | '\r' :: '\n' :: rest => '\n' :: unifyBreaks rest
  | c :: rest => c :: unifyBreaks rest
  | [] => []

/-- The blanks between two parts of a scalar, latest first: inside one line, or the first line break
and those after it. An escaped line break counts, but is not kept. -/
inductive Gap where
  | spaces (cs : List Char)
  | breaks (first : Option Char) (others : List Char)

namespace Gap

/-- No blank at all. -/
def empty : Gap := .spaces []

/-- A blank after the gap. Blanks at the start of a line are dropped. -/
def addSpace (c : Char) : Gap → Gap
  | .spaces cs => .spaces (c :: cs)
  | gap => gap

/-- A line break after the gap. Blanks before it are dropped. -/
def addBreak (c : Char) : Gap → Gap
  | .spaces _ => .breaks (some (keptBreak c)) []
  | .breaks first others => .breaks first (keptBreak c :: others)

/-- Whether the gap holds a line break. -/
def spansLines : Gap → Bool
  | .spaces _ => false
  | .breaks .. => true

/-- Whether there is no gap. -/
def isEmpty : Gap → Bool
  | .spaces [] => true
  | _ => false

/-- What is left of the gap in the scalar, latest first. -/
def folded : Gap → List Char
  | .spaces cs => cs
  | .breaks (some '\n') [] => [' ']
  | .breaks (some '\n') others => others
  | .breaks first others => others ++ first.toList

end Gap

/-! ## Scalars -/

/-- Characters that stand for structure inside brackets. -/
def isFlowIndicator (c : Char) : Bool :=
  c == ',' || c == '[' || c == ']' || c == '\x7b' || c == '\x7d'

/-- A plain text and whether line breaks follow it. -/
structure PlainText where
  text : String
  endsLine : Bool
  after : Cursor

/-- The end of a plain text. -/
def PlainText.finish (text : List Char) (gap : Gap) (m : Mark) (cs : List Char) : PlainText :=
  ⟨String.ofList text.reverse, gap.spansLines, ⟨cs, m⟩⟩

/-- Whether a plain text ends before this word: at a comment, at a line that is not indented enough,
or at the mark of a document. -/
def endsBeforeWord (inFlow : Bool) (indent : Int) (m : Mark) (cs : List Char) : Bool :=
  (!inFlow && decide ((m.column : Int) < indent)) || atDocumentMarker m cs || cs.head? == some '#'

/-- Reads a plain text. `indent` is the least column of its further lines outside of brackets. -/
def plainText (inFlow : Bool) (indent : Int) (text : List Char) (gap : Gap) (m : Mark) :
    List Char → Option PlainText
  | [] => some (.finish text gap m [])
  | c :: rest =>
      if isSpacing c then
        if c == '\t' && gap.spansLines && decide ((m.column : Int) < indent) then none
        else plainText inFlow indent text (gap.addSpace c) (m.past c) rest
      else if isBreak c then plainText inFlow indent text (gap.addBreak c) m.nextLine rest
      else if !gap.isEmpty && endsBeforeWord inFlow indent m (c :: rest) then
        some (.finish text gap m (c :: rest))
      else if inFlow && c == ':' && rest.head?.any fun d => isFlowIndicator d || d == '?' then none
      else if (c == ':' && atWordEnd rest) || (inFlow && isFlowIndicator c) then
        some (.finish text gap m (c :: rest))
      else plainText inFlow indent (c :: gap.folded ++ text) .empty (m.past c) rest

/-- Reads a text after its opening single quote. Two quotes stand for one. -/
def singleQuoted (text : List Char) (gap : Gap) (m : Mark) : List Char → Option (String × Cursor)
  | [] => none
  | '\'' :: '\'' :: rest => singleQuoted ('\'' :: gap.folded ++ text) .empty (m.skip 2) rest
  | '\'' :: rest => some (String.ofList (gap.folded ++ text).reverse, ⟨rest, m.skip 1⟩)
  | c :: rest =>
      if isSpacing c then singleQuoted text (gap.addSpace c) (m.past c) rest
      else if isBreak c then singleQuoted text (gap.addBreak c) m.nextLine rest
      else if atDocumentMarker m (c :: rest) then none
      else singleQuoted (c :: gap.folded ++ text) .empty (m.past c) rest

/-- The character of an escape of one letter in double quotes. -/
def shortEscape? : Char → Option Char
  | '0' => some '\x00'
  | 'a' => some '\x07'
  | 'b' => some '\x08'
  | 't' => some '\t'
  | '\t' => some '\t'
  | 'n' => some '\n'
  | 'v' => some '\x0b'
  | 'f' => some '\x0c'
  | 'r' => some '\r'
  | 'e' => some '\x1b'
  | ' ' => some ' '
  | '"' => some '"'
  | '/' => some '/'
  | '\\' => some '\\'
  | 'N' => some '\u0085'
  | '_' => some '\u00a0'
  | 'L' => some '\u2028'
  | 'P' => some '\u2029'
  | _ => none

/-- The number of hexadecimal digits after the letter of a numeric escape. -/
def escapeWidth? : Char → Option Nat
  | 'x' => some 2
  | 'u' => some 4
  | 'U' => some 8
  | _ => none

/-- What is being read between double quotes. -/
inductive QuoteMode where
  | text
  /-- After a backslash. -/
  | escape
  /-- In a numeric escape: the digits left to read and the value so far. -/
  | hex (left value : Nat)

/-- The character of a numeric escape; surrogates are no characters. -/
def escapedChar? (value : Nat) : Option Char :=
  if value.isValidChar then some (Char.ofNat value) else none

/-- Reads a text after its opening double quote. -/
def doubleQuoted (mode : QuoteMode) (text : List Char) (gap : Gap) (m : Mark) :
    List Char → Option (String × Cursor)
  | [] => none
  | c :: rest =>
      match mode with
      | .text =>
          if c == '"' then some (String.ofList (gap.folded ++ text).reverse, ⟨rest, m.past c⟩)
          else if isSpacing c then doubleQuoted .text text (gap.addSpace c) (m.past c) rest
          else if isBreak c then doubleQuoted .text text (gap.addBreak c) m.nextLine rest
          else if atDocumentMarker m (c :: rest) then none
          else if c == '\\' then doubleQuoted .escape (gap.folded ++ text) .empty (m.past c) rest
          else doubleQuoted .text (c :: gap.folded ++ text) .empty (m.past c) rest
      | .escape =>
          if isBreak c then doubleQuoted .text text (.breaks none []) m.nextLine rest
          else match shortEscape? c, escapeWidth? c with
            | some e, _ => doubleQuoted .text (e :: text) .empty (m.past c) rest
            | none, some width => doubleQuoted (.hex width 0) text .empty (m.past c) rest
            | none, none => none
      | .hex left value =>
          match ObjectGraph.Text.digitValue? 16 c with
          | none => none
          | some digit =>
              let value := value * 16 + digit
              if left ≤ 1 then
                match escapedChar? value with
                | some e => doubleQuoted .text (e :: text) .empty (m.past c) rest
                | none => none
              else doubleQuoted (.hex (left - 1) value) text .empty (m.past c) rest

section Blocks

/-- What happens to the line breaks at the end of a block. -/
inductive Chomping where
  | strip
  /-- One break is kept. -/
  | clip
  | keep
deriving DecidableEq, Repr

/-- The header of a block: how its lines are joined, how it ends, and how far its lines are
indented, if the header says so. -/
structure BlockHeader where
  folds : Bool
  chomping : Chomping := .clip
  increment : Option Nat := none

/-- Reads the signs after the indicator of a block: a chomping sign and a digit from 1 to 9, in
either order. -/
def BlockHeader.readSigns (h : BlockHeader) : List Char → BlockHeader × List Char
  | c :: rest =>
      let sign : Option Chomping :=
        if c == '+' then some .keep else if c == '-' then some .strip else none
      let isIncrement (d : Char) : Bool := '1' ≤ d && d ≤ '9'
      let number (d : Char) : Nat := d.toNat - '0'.toNat
      match sign with
      | some chomping =>
          match rest with
          | d :: rest' =>
              if isIncrement d then ({ h with chomping, increment := some (number d) }, rest')
              else ({ h with chomping }, d :: rest')
          | [] => ({ h with chomping }, [])
      | none =>
          if isIncrement c then
            match rest with
            | '+' :: rest' => ({ h with chomping := .keep, increment := some (number c) }, rest')
            | '-' :: rest' => ({ h with chomping := .strip, increment := some (number c) }, rest')
            | rest => ({ h with increment := some (number c) }, rest)
          else (h, c :: rest)
  | [] => (h, [])

/-- A block that is partly read. -/
structure Block where
  header : BlockHeader
  /-- The indentation of the lines, once it is known. -/
  indent : Option Nat
  /-- The least indentation that the structure around the block asks for. -/
  least : Nat
  /-- The greatest column that blank lines before the first text reach. -/
  widest : Nat := 0
  text : List Char := []
  /-- The break after the last line of text. -/
  lastBreak : Option Char := none
  /-- The breaks of blank lines after it, latest first. -/
  blankLines : List Char := []
  /-- Whether the last line of text began with a blank. -/
  startedBlank : Bool := false

namespace Block

/-- Whether spaces at this column still belong to the indentation. -/
def isIndentation (b : Block) (column : Nat) : Bool :=
  match b.indent with
  | none => true
  | some n => column < n

/-- The indentation, found from the blank lines and the first text if nothing said it before. -/
def settle (b : Block) (column : Nat) : Block :=
  match b.indent with
  | some _ => b
  | none => { b with indent := some (max (max b.widest column) (max b.least 1)) }

/-- Joins a new line of text to the lines before it. -/
def joinLine (b : Block) (startsBlank : Bool) : Block :=
  let joint :=
    if b.header.folds && b.lastBreak == some '\n' && !b.startedBlank && !startsBlank then
      if b.blankLines.isEmpty then [' '] else b.blankLines
    else b.blankLines ++ b.lastBreak.toList
  { b with
    text := joint ++ b.text
    lastBreak := none
    blankLines := []
    startedBlank := startsBlank }

/-- The text of the whole block. -/
def finish (b : Block) : String :=
  let ending := match b.header.chomping with
    | .strip => []
    | .clip => b.lastBreak.toList
    | .keep => b.blankLines ++ b.lastBreak.toList
  String.ofList (ending ++ b.text).reverse

/-- Reads the lines of a block; `inLine` says that a line of text has begun. -/
def readLines (b : Block) (inLine : Bool) (m : Mark) : List Char → Option (String × Cursor)
  | [] =>
      some (b.finish, ⟨[], m⟩)
  | c :: rest =>
      if inLine then
        if isBreak c then readLines { b with lastBreak := some (keptBreak c) } false m.nextLine rest
        else readLines { b with text := c :: b.text } true (m.past c) rest
      else if c == ' ' && b.isIndentation m.column then readLines b false (m.past c) rest
      else if c == '\t' && b.isIndentation m.column then none
      else if isBreak c then
        readLines { b with
          blankLines := keptBreak c :: b.blankLines
          widest := max b.widest m.column } false m.nextLine rest
      else
        let settled := b.settle m.column
        if settled.indent == some m.column then
          let joined := settled.joinLine (isSpacing c)
          readLines { joined with text := c :: joined.text } true (m.past c) rest
        else some (settled.finish, ⟨c :: rest, m⟩)

end Block

/-- Skips the blanks and the comment after the header of a block, with the break that ends the
line. -/
def afterHeader (inComment : Bool) (m : Mark) : List Char → Option Cursor
  | [] => some ⟨[], m⟩
  | c :: rest =>
      if isBreak c then some ⟨rest, m.nextLine⟩
      else if inComment || isSpacing c then afterHeader inComment (m.past c) rest
      else if c == '#' then afterHeader true (m.past c) rest
      else none

/-- Reads a block after its indicator. `indent` is the indentation of the structure around it. -/
def blockText (folds : Bool) (indent : Int) (m : Mark) (cs : List Char) :
    Option (String × Cursor) := do
  let (header, rest) := BlockHeader.readSigns { folds } cs
  let start ← afterHeader false (m.skip (cs.length - rest.length)) rest
  let block : Block := {
    header
    indent := header.increment.map (indent.toNat + ·)
    least := (indent + 1).toNat }
  block.readLines false start.mark start.rest

end Blocks

end ObjectGraph.Document.Yaml
