import Golusoris.Lib.Utf8
import Mathlib.Algebra.Order.Ring.Rat
import Mathlib.Data.Int.Log
import Mathlib.Data.Rat.Floor

/-!
# Decimal texts and binary64

`readDecimal` is the value of a decimal text with an optional sign, fraction and
exponent. `nearestDouble` is the binary64 number nearest to a rational, the even
one of two; `toDouble` refuses what rounds beyond the largest finite one. The
two zeros are one number here.
-/

namespace Golusoris.Lib

def isDigit (byte : UInt8) : Bool := 0x30 ≤ byte && byte ≤ 0x39

/-- The number written by decimal digits. -/
def digitsValue (digits : Bytes) : Nat :=
  digits.foldl (fun value digit => 10 * value + (digit.toNat - 0x30)) 0

/-- A decimal text in its parts. -/
structure Decimal where
  negative : Bool
  whole : Bytes
  fraction : Bytes
  exponent : Int

/-- The value of a decimal text. -/
def Decimal.value (decimal : Decimal) : ℚ :=
  (if decimal.negative then -1 else 1) * digitsValue (decimal.whole ++ decimal.fraction) *
    (10 : ℚ) ^ (decimal.exponent - decimal.fraction.length)

/-- The exponent at the front of a text, zero if there is none. -/
def readExponent : Bytes → Int
  | [] => 0
  | mark :: rest =>
      if mark = 0x65 ∨ mark = 0x45 then
        match rest with
        | 0x2D :: digits => -digitsValue (digits.takeWhile isDigit)
        | 0x2B :: digits => digitsValue (digits.takeWhile isDigit)
        | digits => digitsValue (digits.takeWhile isDigit)
      else 0

/-- Whether a text starts with a minus, and what follows it. -/
def splitSign : Bytes → Bool × Bytes
  | 0x2D :: rest => (true, rest)
  | text => (false, text)

/-- The digits after a point at the front, and what follows them. -/
def splitFraction : Bytes → Bytes × Bytes
  | 0x2E :: rest => (rest.takeWhile isDigit, rest.dropWhile isDigit)
  | text => ([], text)

/-- The parts of a decimal text: a sign, digits, a fraction and an exponent. -/
def splitDecimal (text : Bytes) : Decimal :=
  let (negative, unsigned) := splitSign text
  let (fraction, rest) := splitFraction (unsigned.dropWhile isDigit)
  { negative := negative, whole := unsigned.takeWhile isDigit, fraction := fraction,
    exponent := readExponent rest }

def readDecimal (text : Bytes) : ℚ := (splitDecimal text).value

/-- Round to an integer, halves to the even one. -/
def roundHalfEven (value : ℚ) : Int :=
  let below := ⌊value⌋
  let excess := value - below
  if excess < 1 / 2 then below
  else if 1 / 2 < excess then below + 1
  else if below % 2 = 0 then below
  else below + 1

/-- The distance between binary64 numbers of this size. -/
def ulp (value : ℚ) : ℚ := (2 : ℚ) ^ max (Int.log 2 |value| - 52) (-1074)

def nearestDouble (value : ℚ) : ℚ := roundHalfEven (value / ulp value) * ulp value

/-- The finite binary64 number nearest to a value, unless the value is half a
unit or more above the largest one. -/
def toDouble (value : ℚ) : Option ℚ :=
  if (2 : ℚ) ^ 1024 - 2 ^ 970 ≤ |value| then none else some (nearestDouble value)

end Golusoris.Lib
