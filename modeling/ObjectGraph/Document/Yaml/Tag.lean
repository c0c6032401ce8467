import ObjectGraph.Document.Yaml.Text
import ObjectGraph.Entries
import ObjectGraph.Text

/-!
# Tags of YAML

A tag names the kind of a node. It is written in full between angle brackets, or as a handle and a
suffix, where the handle stands for the start of the name; a line in front of the document may say
what a handle stands for. Names are made of the characters of a URI, in which a percent sign and two
digits stand for an octet, so a name is a list of octets. They are grouped as the octets of
characters are in UTF-8, but a group need not be a character.
-/

namespace ObjectGraph.Document.Yaml

/-- The octets of ASCII characters. -/
def asciiOctets (cs : List Char) : List UInt8 :=
  cs.map fun c => UInt8.ofNat c.toNat

/-- The name of the kind of a node. -/
structure Tag where
  octets : List UInt8
deriving DecidableEq, Repr

namespace Tag

/-- The start of the names that the language itself defines. -/
def coreStart : List UInt8 :=
  asciiOctets "tag:yaml.org,2002:".toList

/-- A name that the language itself defines. -/
def core (kind : String) : Tag :=
  ⟨coreStart ++ asciiOctets kind.toList⟩

/-- The octet of the mark that tags begin with. -/
def markOctet : UInt8 := 0x21

/-- The tag that is only a mark, which makes it one of the document's own. -/
def bare : Tag := ⟨[markOctet]⟩

/-- Whether the tag is one of the document's own, which begin with the mark, and a text at all. -/
def isOwn (t : Tag) : Bool :=
  t.octets.head? == some markOctet && (ByteArray.mk t.octets.toArray).validateUTF8

end Tag

section Names

/-- Characters of a name that stand for themselves. The comma and the square brackets are among them
only where the name cannot be mistaken for a part of a list. -/
def isUriChar (wide : Bool) (c : Char) : Bool :=
  isNameChar c || ";/?:@&=+$.!~*'()".toList.contains c || (wide && ",[]".toList.contains c)

/-- The number of octets that follow the first one of a character; nothing for an octet that is not
a first one. -/
def octetsToFollow? (octet : Nat) : Option Nat :=
  if octet < 0x80 then some 0
  else if octet < 0xc0 then none
  else if octet < 0xe0 then some 1
  else if octet < 0xf0 then some 2
  else if octet < 0xf8 then some 3
  else none

/-- Reads the characters of a name and gives its octets. `missing` is the number of octets that are
still to come of a character whose first octet was written in digits. -/
def readName (wide : Bool) (missing : Nat) : List Char → Option (List UInt8 × List Char)
  | '%' :: high :: low :: rest => do
      let octet := (← Text.digitValue? 16 high) * 16 + (← Text.digitValue? 16 low)
      let missing ←
        if missing = 0 then octetsToFollow? octet
        else if 0x80 ≤ octet && octet < 0xc0 then some (missing - 1)
        else none
      let (octets, after) ← readName wide missing rest
      return (UInt8.ofNat octet :: octets, after)
  | c :: rest =>
      if missing != 0 || c == '%' then none
      else if isUriChar wide c then do
        let (octets, after) ← readName wide 0 rest
        return (UInt8.ofNat c.toNat :: octets, after)
      else some ([], c :: rest)
  | [] => if missing != 0 then none else some ([], [])

/-- Reads a name, or the rest of one after the characters `start`. A name must not be empty, and it
ends at an octet that is zero. -/
def name? (wide : Bool) (start : List Char) (cs : List Char) :
    Option (List UInt8 × List Char) := do
  let (octets, after) ← readName wide 0 cs
  let octets := asciiOctets (start.drop 1) ++ octets
  if start.isEmpty && octets.isEmpty then none
  else return (octets.takeWhile (· != 0), after)

end Names

/-- A tag as it is written: a handle and a suffix. The handle is empty where the suffix is the whole
name. -/
structure WrittenTag where
  handle : String
  suffix : List UInt8
deriving DecidableEq, Repr

namespace WrittenTag

/-- Reads a tag after its mark. A name between two marks is a handle, and so is a mark alone; other
characters before the next mark belong to the suffix. -/
def read? (cs : List Char) : Option (WrittenTag × List Char) :=
  match cs with
  | '<' :: rest => do
      let (suffix, after) ← name? true [] rest
      match after with
      | '>' :: after => some (⟨"", suffix⟩, after)
      | _ => none
  | _ =>
      let word := cs.takeWhile isNameChar
      match cs.drop word.length with
      | '!' :: rest => do
          let (suffix, after) ← name? false [] rest
          return (⟨String.ofList ('!' :: word ++ ['!']), suffix⟩, after)
      | rest => do
          let (suffix, after) ← name? false ('!' :: word) rest
          return (if suffix.isEmpty then ⟨"", Tag.bare.octets⟩ else ⟨"!", suffix⟩, after)

end WrittenTag

/-- What handles stand for. -/
abbrev Handles := List (String × List UInt8)

namespace Handles

/-- The handles that every document knows. -/
def standard : Handles :=
  [("!", [Tag.markOctet]), ("!!", Tag.coreStart)]

/-- The tag that is meant by a written one, if its handle is known. -/
def resolve? (handles : Handles) (t : WrittenTag) : Option Tag :=
  if t.handle.isEmpty then some ⟨t.suffix⟩
  else (Entries.get? t.handle handles).map fun start => ⟨start ++ t.suffix⟩

end Handles

/-- A line in front of a document. -/
inductive Directive where
  /-- The line names the version of the language. -/
  | version
  /-- The line says what a handle stands for. -/
  | handle (name : String) (start : List UInt8)
deriving DecidableEq, Repr

namespace Directive

/-- Reads one of the two numbers of a version, which have at most nine digits. -/
def number? (cs : List Char) : Option (Nat × List Char) :=
  let digits := cs.takeWhile Char.isDigit
  if digits.isEmpty || 9 < digits.length then none
  else some (Nat.ofDigitChars 10 digits 0, cs.drop digits.length)

/-- Reads the version of the language, 1.1 or 1.2. -/
def version? (cs : List Char) : Option (Directive × List Char) := do
  let (major, rest) ← number? cs
  match rest with
  | '.' :: rest =>
      let (minor, rest) ← number? rest
      if major = 1 && (minor = 1 || minor = 2) then some (.version, rest) else none
  | _ => none

/-- Reads a handle and what it stands for. -/
def handle? (cs : List Char) : Option (Directive × List Char) :=
  match cs with
  | '!' :: cs => do
      let word := cs.takeWhile isNameChar
      let (name, rest) ← match cs.drop word.length with
        | '!' :: rest => some ('!' :: word ++ ['!'], rest)
        | rest => if word.isEmpty then some (['!'], rest) else none
      if !rest.head?.any isSpacing then none
      else
        let (start, rest) ← name? true [] (rest.dropWhile isSpacing)
        if atWordEnd rest then some (.handle (String.ofList name) start, rest) else none
  | _ => none

/-- Reads a line after its percent sign. Only a comment may follow. -/
def read? (cs : List Char) : Option (Directive × List Char) := do
  let word := cs.takeWhile isNameChar
  let rest := cs.drop word.length
  let arguments := rest.dropWhile isSpacing
  let (directive, rest) ←
    if !atWordEnd rest then none
    else if word == "YAML".toList then version? arguments
    else if word == "TAG".toList then handle? arguments
    else none
  let after := rest.dropWhile isSpacing
  if after.head?.all fun c => c == '#' || isBreak c then some (directive, after) else none

end Directive

end ObjectGraph.Document.Yaml
