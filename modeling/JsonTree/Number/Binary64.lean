import JsonTree.Number.Decimal

/-! Binary floating-point numbers of 64 bits, and the nearest one to a literal.

A finite number is a whole count of the smallest positive one, `2 ^ -1074`, so
rounding is a division of natural numbers. The counts that are used have at most 53
significant bits.
-/

set_option autoImplicit false

namespace JsonTree

/-- A finite number is `±units × 2 ^ -1074`; zero has a sign. -/
inductive Binary64 where
  | finite (negative : Bool) (units : Nat)
  | infinite (negative : Bool)
  | notANumber
  deriving DecidableEq, Repr

namespace Binary64

/-- The distance between neighbours at a count of units: 53 bits are kept. -/
def spacing (units : Nat) : Nat := twoTo (units.log2 - 52)

/-- The first count that is too large: `2 ^ 1024`. -/
def limit : Nat := twoTo 2098

/-- The nearest whole quotient; a tie goes to the even one. -/
def roundDiv (numerator denominator : Nat) : Nat :=
  let quotient := numerator / denominator
  let twice := 2 * (numerator % denominator)
  if twice < denominator then quotient
  else if denominator < twice then quotient + 1
  else quotient + quotient % 2

-- Rounding up may end at the next power of two, where the spacing is wider. No second
-- rounding is needed, because that power is a multiple of the wider spacing too.

def roundUnits (numerator denominator : Nat) : Nat :=
  let step := spacing (numerator / denominator)
  roundDiv numerator (denominator * step) * step

def ofUnits (negative : Bool) (units : Nat) : Binary64 :=
  if units < limit then .finite negative units else .infinite negative

def ofScaled (negative : Bool) (coefficient : Nat) (exponent : Int) : Binary64 :=
  ofUnits negative <|
    if 0 ≤ exponent then roundUnits (coefficient * tenTo exponent.toNat * twoTo 1074) 1
    else roundUnits (coefficient * twoTo 1074) (tenTo (-exponent).toNat)

/-- Numbers from `10 ^ 309` on are infinite and those below `10 ^ -324` are zero, so
no large power of ten is formed for them. -/
def ofDigits (negative : Bool) (digits : List Digit) (exponent : Int) : Binary64 :=
  let significant := Decimal.trimStart digits
  let leading := exponent + significant.length
  if significant = [] then .finite negative 0
  else if 309 < leading then .infinite negative
  else if leading < -323 then .finite negative 0
  else ofScaled negative (Digit.value significant) exponent

def toBits : Binary64 → Nat
  | .finite negative units =>
    let shift := units.log2 - 52
    (if negative then twoTo 63 else 0) + (shift * twoTo 52 + units / twoTo shift)
  | .infinite negative => (if negative then twoTo 63 else 0) + 2047 * twoTo 52
  | .notANumber => 4095 * twoTo 51

def ofBits (bits : Nat) : Binary64 :=
  let negative := bits / twoTo 63 % 2 == 1
  let exponent := bits / twoTo 52 % 2048
  let fraction := bits % twoTo 52
  if exponent = 2047 then if fraction = 0 then .infinite negative else .notANumber
  else if exponent = 0 then .finite negative fraction
  else .finite negative ((twoTo 52 + fraction) * twoTo (exponent - 1))

def signedUnits (negative : Bool) (units : Nat) : Int := if negative then -units else units

/-- The distance `2 ^ -52`, in units. -/
def tolerance : Nat := twoTo 1022

/-- Whether the rounded difference of two finite counts is within the tolerance. -/
def near (left right : Int) : Bool := roundUnits (left - right).natAbs 1 ≤ tolerance

theorem near_comm (left right : Int) : near left right = near right left := by
  unfold near
  rw [← Int.natAbs_neg, Int.neg_sub]

end Binary64

def Number.writtenExponent (number : Number) : Int :=
  match number.exponent with
  | none => 0
  | some exponent => exponent.value

def Number.nearest (number : Number) : Binary64 :=
  .ofDigits number.negative (Digit.ofNat number.whole ++ number.fraction)
    (number.writtenExponent - number.fraction.length)

end JsonTree
