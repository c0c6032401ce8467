import ObjectGraph.Binary64
import ObjectGraph.Document
import ObjectGraph.Text

/-!
# Documents read from JSON

The text is read in two passes. The first cuts it into tokens, the second puts the tokens together
with a stack of the arrays and objects that are still open. Both go through their input once. The
grammar is kept to the letter; arrays and objects may be nested 127 deep, and of equal keys the last
one counts.
-/

namespace ObjectGraph.Document.Json

/-- A piece of the text that is more than one character of meaning. -/
inductive Token where
  | openArray
  | closeArray
  | openObject
  | closeObject
  | comma
  | colon
  | string (s : String)
  /-- A number or a literal name. -/
  | atom (d : Document)

/-- Blanks between tokens. -/
def isSpace (c : Char) : Bool :=
  c == ' ' || c == '\t' || c == '\n' || c == '\r'

/-- The tokens of one character. -/
def punctuation? : Char → Option Token
  | '[' => some .openArray
  | ']' => some .closeArray
  | '\x7b' => some .openObject
  | '\x7d' => some .closeObject
  | ',' => some .comma
  | ':' => some .colon
  | _ => none

section Numbers

/-- How many digits of a number are read one by one. A point halfway between two doubles has
fewer. -/
def digitLimit : Nat := 768

/-- The number with a single one in place of all digits beyond the limit. They can only say that the
value is above a point halfway between two doubles. Zeros count as digits in front of the point, and
so say the same there, but not at the front of the number or at the end of its fraction. -/
def condensed (n : Text.Numeral) : Text.Numeral :=
  let fraction := (n.fractionDigits.reverse.dropWhile (· == '0')).reverse
  let digits := (n.whole ++ fraction).dropWhile (· == '0')
  if digits.length ≤ digitLimit then n
  else
    let left := digits.length - (digitLimit + 1)
    { n with
      whole := digits.take digitLimit ++ ['1']
      fraction := none
      exponent := some (n.power - fraction.length + left) }

/-- A number with a point, an exponent or too many digits for an integer: the double nearest to it
when condensed, which must be finite. -/
def float? (n : Text.Numeral) : Option Document :=
  (Binary64.ofNumeral? (condensed n)).map ofFloat

/-- A number without point and exponent: an integer if it is in the range of documents. Minus zero
is a double, as it has no integer. -/
def whole? (n : Text.Numeral) : Option Document :=
  let value := Nat.ofDigitChars 10 n.whole 0
  if n.isNegative then
    if value = 0 then float? n else (ofInt? (-value)).or (float? n)
  else (ofInt? value).or (float? n)

/-- Whether the digits before the point are written as they must be: at least one, and a zero in
front only if it is alone. -/
def isWholePart : List Char → Bool
  | [] => false
  | ['0'] => true
  | d :: _ => d != '0'

/-- The number that a run of characters is. -/
def number? (cs : List Char) : Option Document := do
  let n ← Text.Numeral.ofChars? cs
  if n.sign != some '+' && isWholePart n.whole && n.fraction != some [] then
    if n.isWhole then whole? n else float? n
  else none

end Numbers

/-- The number or literal name that a run of characters is. -/
def atom? (cs : List Char) : Option Document :=
  match String.ofList cs with
  | "null" => some .null
  | "true" => some (.bool true)
  | "false" => some (.bool false)
  | _ => number? cs

section Tokens

/-- What is being read. Characters of an unfinished piece stand latest first. -/
inductive Mode where
  | between
  /-- A run of characters that will be a number or a literal name. -/
  | run (chars : List Char)
  | text (chars : List Char)
  /-- After a backslash in a text. -/
  | escape (chars : List Char)
  /-- After the mark of a numeric escape: the digits left to read and the value so far; `upper` is
  the first half of a pair of surrogates. -/
  | hex (chars : List Char) (upper : Option Nat) (left value : Nat)
  /-- After the first half of a pair of surrogates: the backslash and the mark of the second half
  are still to come, or only the mark. -/
  | pair (chars : List Char) (upper : Nat) (sawBackslash : Bool)

/-- The character of a short escape. -/
def shortEscape? : Char → Option Char
  | '"' => some '"'
  | '\\' => some '\\'
  | '/' => some '/'
  | 'b' => some '\x08'
  | 'f' => some '\x0c'
  | 'n' => some '\n'
  | 'r' => some '\r'
  | 't' => some '\t'
  | _ => none

/-- The mode after a numeric escape with a value. Halves of surrogate pairs must come in pairs. -/
def afterHex (chars : List Char) (upper : Option Nat) (value : Nat) : Option Mode :=
  let isLower := 0xdc00 ≤ value && value ≤ 0xdfff
  match upper with
  | some high =>
      if isLower then
        some (.text (Char.ofNat (0x10000 + (high - 0xd800) * 0x400 + (value - 0xdc00)) :: chars))
      else none
  | none =>
      if isLower then none
      else if 0xd800 ≤ value && value ≤ 0xdbff then some (.pair chars value false)
      else some (.text (Char.ofNat value :: chars))

/-- A character between two tokens: the mode after it and the token it is, if it is one. -/
def startToken (c : Char) : Mode × List Token :=
  if isSpace c then (.between, [])
  else if c == '"' then (.text [], [])
  else match punctuation? c with
    | some token => (.between, [token])
    | none => (.run [c], [])

/-- Reads one character; gives the mode after it and the tokens that it finishes, in order. -/
def step : Mode → Char → Option (Mode × List Token)
  | .between, c => some (startToken c)
  | .run chars, c =>
      if isSpace c || c == '"' || (punctuation? c).isSome then
        (atom? chars.reverse).map fun d =>
          -- The character that ends the run begins the next token or is a blank.
          let (mode, tokens) := startToken c
          (mode, .atom d :: tokens)
      else some (.run (c :: chars), [])
  | .text chars, c =>
      if c == '"' then some (.between, [.string (String.ofList chars.reverse)])
      else if c == '\\' then some (.escape chars, [])
      else if c.toNat < 0x20 then none
      else some (.text (c :: chars), [])
  | .escape chars, c =>
      if c == 'u' then some (.hex chars none 4 0, [])
      else (shortEscape? c).map fun e => (.text (e :: chars), [])
  | .hex chars upper left value, c => do
      let digit ← ObjectGraph.Text.digitValue? 16 c
      let value := value * 16 + digit
      if left ≤ 1 then return (← afterHex chars upper value, [])
      else return (.hex chars upper (left - 1) value, [])
  | .pair chars upper false, c => if c == '\\' then some (.pair chars upper true, []) else none
  | .pair chars upper true, c => if c == 'u' then some (.hex chars (some upper) 4 0, []) else none

/-- A text that is partly cut into tokens, the latest first. -/
structure Scan where
  mode : Mode := .between
  tokens : List Token := []

/-- The tokens after one more character. -/
def Scan.read (s : Scan) (c : Char) : Option Scan :=
  (step s.mode c).map fun (mode, tokens) => { mode, tokens := tokens.reverse ++ s.tokens }

/-- All tokens in order, if the last one is finished. -/
def Scan.finish? (s : Scan) : Option (List Token) :=
  match s.mode with
  | .between => some s.tokens.reverse
  | .run chars => (atom? chars.reverse).map fun d => (.atom d :: s.tokens).reverse
  | _ => none

end Tokens

section Structure

/-- An array or an object that is still open; finished parts stand latest first. -/
inductive Frame where
  | array (items : List Document)
  | object (entries : List (String × Document))
  /-- An object with a key whose value is still to come. -/
  | entry (entries : List (String × Document)) (key : String)

/-- What may come next. -/
inductive Awaiting where
  | value
  | valueOrClose
  | key
  | keyOrClose
  | colon
  /-- A comma or the closing bracket; at the outside, nothing. -/
  | separator

/-- A document that is partly read. -/
structure Progress where
  frames : List Frame := []
  awaiting : Awaiting := .value
  /-- The finished document. -/
  result : Document := .null

/-- The most arrays and objects that may be open at once. -/
def depthLimit : Nat := 127

/-- Puts a finished part where it belongs. -/
def Progress.deliver (p : Progress) (d : Document) : Option Progress :=
  match p.frames with
  | [] => some { frames := [], awaiting := .separator, result := d }
  | .array items :: outer =>
      some { p with frames := .array (d :: items) :: outer, awaiting := .separator }
  | .entry entries key :: outer =>
      some { p with frames := .object ((key, d) :: entries) :: outer, awaiting := .separator }
  | .object _ :: _ => none

/-- Opens an array or an object. -/
def Progress.push (p : Progress) (frame : Frame) (awaiting : Awaiting) : Option Progress :=
  if p.frames.length < depthLimit then
    some { p with frames := frame :: p.frames, awaiting }
  else none

/-- Closes the innermost array. -/
def Progress.closeArray (p : Progress) : Option Progress :=
  match p.frames with
  | .array items :: outer => { p with frames := outer }.deliver (.array items.reverse)
  | _ => none

/-- Closes the innermost object. -/
def Progress.closeObject (p : Progress) : Option Progress :=
  match p.frames with
  | .object entries :: outer => { p with frames := outer }.deliver (ofEntries entries.reverse)
  | _ => none

/-- The token that begins a value. -/
def Progress.value (p : Progress) : Token → Option Progress
  | .atom d => p.deliver d
  | .string s => p.deliver (.string s)
  | .openArray => p.push (.array []) .valueOrClose
  | .openObject => p.push (.object []) .keyOrClose
  | _ => none

/-- The token that is a key. -/
def Progress.key (p : Progress) : Token → Option Progress
  | .string key =>
      match p.frames with
      | .object entries :: outer =>
          some { p with frames := .entry entries key :: outer, awaiting := .colon }
      | _ => none
  | _ => none

/-- The document after one more token. -/
def Progress.read (p : Progress) (token : Token) : Option Progress :=
  match p.awaiting, token with
  | .valueOrClose, .closeArray => p.closeArray
  | .value, token => p.value token
  | .valueOrClose, token => p.value token
  | .keyOrClose, .closeObject => p.closeObject
  | .key, token => p.key token
  | .keyOrClose, token => p.key token
  | .colon, .colon => some { p with awaiting := .value }
  | .separator, .closeArray => p.closeArray
  | .separator, .closeObject => p.closeObject
  | .separator, .comma =>
      match p.frames with
      | .array _ :: _ => some { p with awaiting := .value }
      | .object _ :: _ => some { p with awaiting := .key }
      | _ => none
  | _, _ => none

/-- The document, if nothing is left to come. -/
def Progress.finish? (p : Progress) : Option Document :=
  match p.frames, p.awaiting with
  | [], .separator => some p.result
  | _, _ => none

end Structure

/-- The document of a JSON text. -/
def read? (text : String) : Option Document := do
  let scan ← text.toList.foldlM Scan.read {}
  let tokens ← scan.finish?
  let progress ← tokens.foldlM Progress.read {}
  progress.finish?

end ObjectGraph.Document.Json
