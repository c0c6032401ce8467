import ObjectGraph.Text

/-!
# Double-precision binary numbers

A number is its 64-bit pattern: a sign bit, eleven exponent bits and 52 fraction bits. The finite
numbers are `± significand · 2 ^ scale` with the significand below `2 ^ 53` and the scale at least
`-1074`; `ofRatio` gives the pattern nearest to a fraction, a half going to the even neighbour.
All arithmetic is on exact integers, that of decimals included: a number is written with the fewest
digits that read back, and a decimal is read as the number nearest to it.
-/

namespace ObjectGraph

/-- A double-precision number by its bit pattern. Two patterns are equal as data exactly when all
bits agree; `Binary64.equals` is the numeric comparison. -/
structure Binary64 where
  bits : UInt64
deriving DecidableEq, Repr

namespace Binary64

/-- The weight of the sign bit. -/
def signWeight : Nat := 0x8000000000000000

/-- The weight of the lowest exponent bit, which is that of the leading one of a normal number. -/
def leadingWeight : Nat := 0x10000000000000

/-- Bits without the sign. -/
def magnitudeBits (x : Binary64) : Nat :=
  x.bits.toNat % signWeight

/-- Whether the sign bit is set. -/
def isNegative (x : Binary64) : Bool :=
  signWeight ≤ x.bits.toNat

/-- The eleven exponent bits. -/
def exponentBits (x : Binary64) : Nat :=
  x.magnitudeBits / leadingWeight

/-- The 52 fraction bits. -/
def fractionBits (x : Binary64) : Nat :=
  x.magnitudeBits % leadingWeight

/-- Neither infinite nor NaN. -/
def isFinite (x : Binary64) : Bool :=
  x.exponentBits < 2047

/-- Not a number: all exponent bits are set, and some fraction bit is. -/
def isNaN (x : Binary64) : Bool :=
  !x.isFinite && x.fractionBits != 0

/-- Either of the two zeros. -/
def isZero (x : Binary64) : Bool :=
  x.magnitudeBits == 0

/-- Pattern with the given sign and magnitude bits. -/
def ofParts (negative : Bool) (magnitude : Nat) : Binary64 :=
  ⟨UInt64.ofNat (magnitude + if negative then signWeight else 0)⟩

/-- Magnitude bits of infinity, the first pattern that is not finite. -/
def infiniteBits : Nat := 0x7ff0000000000000

/-- The integer factor of a finite number: the fraction bits with the leading one of a normal
number. -/
def significand (x : Binary64) : Nat :=
  if x.exponentBits = 0 then x.fractionBits else x.fractionBits + leadingWeight

/-- The power of two of a finite number, counted up from `2 ^ (-1074)`. -/
def scale (x : Binary64) : Nat :=
  x.exponentBits - 1

/-- Numeric equality: NaN differs from everything, the two zeros are equal. -/
def equals (x y : Binary64) : Bool :=
  !x.isNaN && !y.isNaN && (x == y || (x.isZero && y.isZero))

/-- The quotient `num / den` rounded to the nearest integer, a half going to the even neighbour. -/
def roundDiv (num den : Nat) : Nat :=
  let low := num / den
  let rest := num % den
  if 2 * rest < den then low
  else if den < 2 * rest then low + 1
  else if low % 2 = 0 then low else low + 1

/-- The power of two, counted up from `2 ^ (-1074)`, at which a positive fraction has 53 significant
bits, or the least one. The fraction lies between half and twice `2 ^ (log2 num - log2 den)`, so one
comparison decides between two neighbours. -/
def ratioScale (num den : Nat) : Nat :=
  let low := num.log2 + 1021 - den.log2
  if (2 * leadingWeight * den) <<< low ≤ num <<< 1074 then low + 1 else low

/-- Magnitude bits of the number nearest to `num / den`; infinity if it is beyond the finite range.
The leading one of the rounded significand adds itself to the exponent bits. -/
def ratioBits (num den : Nat) : Nat :=
  if num = 0 then 0
  else
    let q := ratioScale num den
    min (q * leadingWeight + roundDiv (num <<< 1074) (den <<< q)) infiniteBits

/-- The number nearest to `± num / den`, where `den` is not zero. -/
def ofRatio (negative : Bool) (num den : Nat) : Binary64 :=
  ofParts negative (ratioBits num den)

/-- The number nearest to an integer. -/
def ofInt (n : Int) : Binary64 :=
  ofRatio (n < 0) n.natAbs 1

end Binary64

/-! ## The shortest decimal that reads back

A finite positive number owns the interval of fractions that round to it; the ends belong to it
exactly when its significand is even. `shortest` looks on the decimal grids of 1, 2, … 17
significant digits for a point in that interval: the first grid with one wins, of two points the
nearer one, and of two equally near ones the even one.
-/

/-- The number `coefficient · 10 ^ exponent`. -/
structure Decimal where
  coefficient : Nat
  exponent : Int
deriving DecidableEq, Repr

namespace Decimal

/-- Numerator of the value over the denominator `Decimal.denominator`. -/
def numerator (d : Decimal) : Nat :=
  d.coefficient * Nat.pow 10 d.exponent.toNat

/-- The power of ten that a negative exponent divides by. -/
def denominator (d : Decimal) : Nat :=
  Nat.pow 10 (-d.exponent).toNat

/-- Significant digits of the coefficient, without trailing zeros. -/
def digits (d : Decimal) : List Char :=
  ((Nat.toDigits 10 d.coefficient).reverse.dropWhile (· == '0')).reverse

/-- The place of the decimal point, counted from the start of `Decimal.digits`. -/
def point (d : Decimal) : Int :=
  (Nat.toDigits 10 d.coefficient).length + d.exponent

end Decimal

namespace Binary64

/-- Four times the significand at the lower end of the interval that rounds to `x`: half a unit
below it, or a quarter where the numbers below are twice as dense. -/
def lowerQuarters (x : Binary64) : Nat :=
  if x.fractionBits = 0 && 1 < x.exponentBits then 4 * x.significand - 1 else 4 * x.significand - 2

/-- Four times the significand at the upper end of the interval that rounds to `x`. -/
def upperQuarters (x : Binary64) : Nat :=
  4 * x.significand + 2

/-- Whether a decimal rounds to the positive finite number `x`. -/
def isReadFrom (x : Binary64) (d : Decimal) : Bool :=
  let value := d.numerator <<< 1076
  let lower := (x.lowerQuarters * d.denominator) <<< x.scale
  let upper := (x.upperQuarters * d.denominator) <<< x.scale
  if x.significand % 2 = 0 then lower ≤ value && value ≤ upper else lower < value && value < upper

/-- The place of the decimal point of a positive finite number: the `k` with
`10 ^ (k - 1) ≤ x < 10 ^ k`. -/
def decimalPoint (x : Binary64) : Int :=
  let num := x.significand <<< x.scale
  let whole := num >>> 1074
  if whole = 0 then 1 - ((Nat.toDigits 10 ((1 <<< 1074) / num)).length : Int)
  else (Nat.toDigits 10 whole).length

/-- The decimal of `x` on the grid of the powers `10 ^ exponent`: the point below it or the one
above, if they round to `x`, the nearer one first. -/
def onGrid? (x : Binary64) (exponent : Int) : Option Decimal :=
  let num := (x.significand * Nat.pow 10 (-exponent).toNat) <<< x.scale
  let den := Nat.pow 10 exponent.toNat <<< 1074
  let nearest : Decimal := ⟨roundDiv num den, exponent⟩
  let low : Decimal := ⟨num / den, exponent⟩
  let high : Decimal := ⟨num / den + 1, exponent⟩
  [nearest, low, high].find? x.isReadFrom

/-- The shortest decimal that rounds to the positive finite number `x`. -/
def shortest (x : Binary64) : Decimal :=
  let point := x.decimalPoint
  match (List.range 17).findSome? fun n => x.onGrid? (point - (n + 1 : Nat)) with
  | some d => d
  | none => ⟨(x.significand <<< x.scale) >>> 1074, 0⟩

/-! ## Written numbers

The text of a number in a document: the shortest digits that read back, positional for decimal
points from six zeros behind the point up to 21 places before it, and with an exponent beyond. Both
zeros are written `0`.
-/

/-- The exponent after the digits, always with a sign. -/
def exponentText (e : Int) : List Char :=
  'e' :: (if e < 0 then '-' else '+') :: Nat.toDigits 10 e.natAbs

/-- Significant digits with the decimal point after `point` of them. -/
def layout (digits : List Char) (point : Int) : List Char :=
  let count : Int := digits.length
  if count ≤ point ∧ point ≤ 21 then digits ++ List.replicate (point - count).toNat '0'
  else if 0 < point ∧ point ≤ 21 then digits.take point.toNat ++ '.' :: digits.drop point.toNat
  else if -6 < point ∧ point ≤ 0 then '0' :: '.' :: List.replicate (-point).toNat '0' ++ digits
  else match digits with
    | [d] => d :: exponentText (point - 1)
    | digits => digits.take 1 ++ '.' :: digits.drop 1 ++ exponentText (point - 1)

/-- The text of a finite number. -/
def finiteText (x : Binary64) : List Char :=
  if x.isZero then ['0']
  else
    let d := x.shortest
    (if x.isNegative then ['-'] else []) ++ layout d.digits d.point

/-- The name of a number that is not finite. -/
def nonFiniteText (x : Binary64) : String :=
  if x.isNaN then "NaN" else if x.isNegative then "-inf" else "inf"

/-! ## Decimals read as binary numbers

A decimal `± coefficient · 10 ^ exponent` is read as the number nearest to it, however many digits
it has. A number text is read the same way, unless its value is beyond the finite range.
-/

/-- The number nearest to a decimal. Decimals with a point far outside the range are infinite or
zero without being written out. -/
def ofDecimal (negative : Bool) (coefficient : Nat) (exponent : Int) : Binary64 :=
  let point := (Nat.toDigits 10 coefficient).length + exponent
  if coefficient = 0 ∨ point < -400 then ofParts negative 0
  else if 400 < point then ofParts negative infiniteBits
  else ofRatio negative (coefficient * Nat.pow 10 exponent.toNat) (Nat.pow 10 (-exponent).toNat)

/-- The number nearest to the value of a number text; nothing if that is not finite. -/
def ofNumeral? (n : Text.Numeral) : Option Binary64 :=
  let x := ofDecimal n.isNegative (Nat.ofDigitChars 10 (n.whole ++ n.fractionDigits) 0)
    (n.power - n.fractionDigits.length)
  if x.isFinite then some x else none

end Binary64

end ObjectGraph
