/-!
# Texts

What the other modules need of texts: cutting at a separator and joining again, blanks at the ends,
and the reading of numbers. A text without a separator is one segment, the empty text included.
-/

namespace ObjectGraph.Text

/-! ## Texts cut at a separator -/

/-- The parts of `s` between the occurrences of `separator`; never an empty list. -/
def segments (separator : Char) (s : String) : List String :=
  (s.toList.splitOn separator).map String.ofList

/-- The parts with `separator` between neighbours. -/
def joined (separator : Char) (parts : List String) : String :=
  String.ofList ([separator].intercalate (parts.map String.toList))

/-- Whether `needle` occurs as a run of neighbouring characters of the second list. -/
def occursIn (needle : List Char) : List Char → Bool
  | [] => needle.isEmpty
  | c :: cs => needle.isPrefixOf (c :: cs) || occursIn needle cs

/-- Whether `part` is a substring of `s`. -/
def contains (s part : String) : Bool :=
  occursIn part.toList s.toList

/-- Whether `s` begins with `start`. -/
def startsWith (s start : String) : Bool :=
  start.toList.isPrefixOf s.toList

/-- The text with the letters `A` to `Z` in lower case; other characters keep their case. -/
def lowerLatin (s : String) : String :=
  String.ofList (s.toList.map Char.toLower)

/-! ## White space -/

/-- Characters with the Unicode property `White_Space`. -/
def isBlank (c : Char) : Bool :=
  let n := c.toNat
  (0x09 ≤ n && n ≤ 0x0d) || n == 0x20 || n == 0x85 || n == 0xa0 || n == 0x1680 ||
    (0x2000 ≤ n && n ≤ 0x200a) || n == 0x2028 || n == 0x2029 || n == 0x202f || n == 0x205f ||
    n == 0x3000

/-- Every character that the core library counts as white space is blank. -/
theorem isBlank_of_isWhitespace {c : Char} (h : c.isWhitespace = true) : isBlank c = true := by
  simp only [Char.isWhitespace, Bool.or_eq_true, decide_eq_true_eq] at h
  rcases h with ((rfl | rfl) | rfl) | rfl <;> decide

/-- The characters left when blanks are removed at both ends. -/
def trimChars (cs : List Char) : List Char :=
  ((cs.dropWhile isBlank).reverse.dropWhile isBlank).reverse

/-- The text without the blanks at its ends. -/
def trim (s : String) : String :=
  String.ofList (trimChars s.toList)

/-! ## Unsigned numbers

A whole text is read as a decimal number: at most one plus sign, then ASCII digits only. Digits of
other bases are read one by one.
-/

/-- The value of one digit in a base up to sixteen, with letters of either case for ten and more. -/
def digitValue? (base : Nat) (c : Char) : Option Nat :=
  let value :=
    if c.isDigit then some (c.toNat - '0'.toNat)
    else if 'a' ≤ c ∧ c ≤ 'f' then some (c.toNat - 'a'.toNat + 10)
    else if 'A' ≤ c ∧ c ≤ 'F' then some (c.toNat - 'A'.toNat + 10)
    else none
  value.filter (· < base)

/-- The digits of a number text: the text without one leading plus sign. -/
def unsignedDigits : List Char → List Char
  | '+' :: digits => digits
  | digits => digits

/-- The value of an optional plus sign followed by one or more ASCII digits, if it is at most
`bound`. Leading zeros are allowed. -/
def readUnsigned? (bound : Nat) (cs : List Char) : Option Nat :=
  let digits := unsignedDigits cs
  if !digits.isEmpty && digits.all Char.isDigit then
    let n := Nat.ofDigitChars 10 digits 0
    if n ≤ bound then some n else none
  else none

/-- A number that is read keeps to its bound. -/
theorem readUnsigned?_le {bound n : Nat} {cs : List Char} (h : readUnsigned? bound cs = some n) :
    n ≤ bound := by
  simp only [readUnsigned?] at h
  split at h
  · split at h
    · cases h
      assumption
    · cases h
  · cases h

/-! ## Decimal numerals

The parts of a number text: a sign, digits before a point, digits behind it, and an exponent. The
text is only taken apart here; which parts may be missing is for the format that reads it.
-/

/-- The parts of a number text. -/
structure Numeral where
  /-- The sign, if there is one. -/
  sign : Option Char
  whole : List Char
  /-- The digits behind the point, if there is a point. -/
  fraction : Option (List Char)
  /-- The exponent, if there is one. -/
  exponent : Option Int
deriving DecidableEq, Repr

namespace Numeral

/-- A plus or a minus sign in front, and the rest. -/
def takeSign : List Char → Option Char × List Char
  | '+' :: rest => (some '+', rest)
  | '-' :: rest => (some '-', rest)
  | cs => (none, cs)

/-- The exponent that the whole text is: an `e` of either case, a sign or none, and digits. -/
def exponentOf? : List Char → Option (Option Int)
  | [] => some none
  | c :: rest =>
      let (sign, digits) := takeSign rest
      if (c == 'e' || c == 'E') && !digits.isEmpty && digits.all Char.isDigit then
        let n : Int := Nat.ofDigitChars 10 digits 0
        some (some (if sign == some '-' then -n else n))
      else none

/-- Takes a whole text apart. -/
def ofChars? (cs : List Char) : Option Numeral :=
  let (sign, cs) := takeSign cs
  let whole := cs.takeWhile Char.isDigit
  match cs.dropWhile Char.isDigit with
  | '.' :: rest =>
      (exponentOf? (rest.dropWhile Char.isDigit)).map fun exponent =>
        ⟨sign, whole, some (rest.takeWhile Char.isDigit), exponent⟩
  | rest => (exponentOf? rest).map fun exponent => ⟨sign, whole, none, exponent⟩

/-- Whether there is a minus sign. -/
def isNegative (n : Numeral) : Bool :=
  n.sign == some '-'

/-- The digits behind the point; none where there is no point. -/
def fractionDigits (n : Numeral) : List Char :=
  n.fraction.getD []

/-- The power of ten of the exponent; zero where there is none. -/
def power (n : Numeral) : Int :=
  n.exponent.getD 0

/-- Neither a point nor an exponent. -/
def isWhole (n : Numeral) : Bool :=
  n.fraction.isNone && n.exponent.isNone

end Numeral

end ObjectGraph.Text
