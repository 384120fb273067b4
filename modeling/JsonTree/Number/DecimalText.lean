import JsonTree.Number.Decimal
import JsonTree.Number.Spelling
import JsonTree.Text.Bytes

/-! Decimal normal forms that are read off texts.

A text is cut at its sign, at the letter of its exponent and at its point, and its digits stay
characters. The exponent is changed three times, and each time it is kept inside the signed
64-bit range: as it is read, when the fraction is counted off, and when the zeros at the end are
counted in.
-/

set_option autoImplicit false

namespace JsonTree

def cutAtFirst (isMark : Char → Bool) (text : List Char) : List Char × Option (List Char) :=
  (text.takeWhile (!isMark ·), (text.dropWhile (!isMark ·)).tail?)

/-- The value `±digits × 10 ^ exponent`, with its digits as they are written. -/
structure DecimalText where
  negative : Bool
  digits : List Char
  exponent : Int
  deriving DecidableEq, Repr

def Decimal.text (decimal : Decimal) : DecimalText :=
  ⟨decimal.negative, Digit.chars decimal.digits, decimal.exponent⟩

namespace Number

/-- The integer that digits behind a sign, or without one, stand for, when 64 bits hold it. -/
def readInt64? (text : List Char) : Option Int := do
  let (negative, unsigned) := scanExponentSign text
  let digits ← Digit.all? unsigned
  let value : Int := if negative then -Digit.value digits else Digit.value digits
  if leastInt64 ≤ value ∧ value ≤ greatestInt64 then some value else none

/-- A power of ten. One that 64 bits do not hold counts as half of their range. -/
def readPower (text : List Char) : Int :=
  (readInt64? text).getD (if text.head? = some '-' then leastInt64 / 2 else greatestInt64 / 2)

structure Pieces where
  negative : Bool
  whole : List Char
  fraction : List Char
  power : Option (List Char)
  deriving DecidableEq, Repr

namespace Pieces

def ofText (text : List Char) : Pieces :=
  let (negative, unsigned) := scanSign text
  let (mantissa, power) := cutAtFirst isMark unsigned
  let (whole, fraction) := cutAtFirst (· == '.') mantissa
  ⟨negative, whole, fraction.getD [], power⟩

variable (pieces : Pieces)

def digits : List Char := pieces.whole ++ pieces.fraction

def trimmed : List Char := (pieces.digits.reverse.dropWhile (· == '0')).reverse

def significant : List Char := pieces.trimmed.dropWhile (· == '0')

def trailing : Nat := byteLength pieces.digits - byteLength pieces.trimmed

def exponent : Int := (pieces.power.map readPower).getD 0

def lastPlace : Int := saturate (pieces.exponent - byteLength pieces.fraction)

def place : Int := saturate (pieces.lastPlace + pieces.trailing)

def normalForm : DecimalText :=
  if pieces.significant.isEmpty then ⟨false, [], 0⟩
  else ⟨pieces.negative, pieces.significant, pieces.place⟩

end Pieces

end Number

def DecimalText.ofText (text : List Char) : DecimalText := (Number.Pieces.ofText text).normalForm

end JsonTree
