import JsonTree.Number.Basic

/-! The decimal normal form of a number.

Zeros at either end of the digits are dropped and counted into the exponent, so two
literals of one value have one normal form as long as their exponents stay inside
the signed 64-bit range. Beyond it, exponents stop at the ends of that range.
-/

set_option autoImplicit false

namespace JsonTree

def saturate (value : Int) : Int := max leastInt64 (min value greatestInt64)

theorem saturate_of_mem {value : Int} (lower : leastInt64 ≤ value) (upper : value ≤ greatestInt64) :
    saturate value = value := by
  unfold saturate
  omega

/-- The written power of ten. One that leaves the signed 64-bit range counts as
half of the range, so that adding a length to it stays inside. -/
def Exponent.saturated (exponent : Exponent) : Int :=
  if leastInt64 ≤ exponent.value ∧ exponent.value ≤ greatestInt64 then exponent.value
  else if exponent.negative then leastInt64 / 2 else greatestInt64 / 2

def Number.saturatedExponent (number : Number) : Int :=
  match number.exponent with
  | none => 0
  | some exponent => exponent.saturated

/-- The value `±digits × 10 ^ exponent`. -/
structure Decimal where
  negative : Bool
  digits : List Digit
  exponent : Int
  deriving DecidableEq, Repr

namespace Decimal

def zero : Decimal := ⟨false, [], 0⟩

def trimEnd (digits : List Digit) : List Digit :=
  (digits.reverse.dropWhile (·.val == 0)).reverse

def trimStart (digits : List Digit) : List Digit := digits.dropWhile (·.val == 0)

/-- Move the zeros at either end of `±digits × 10 ^ exponent` out of the digits. -/
def normalize (negative : Bool) (digits : List Digit) (exponent : Int) : Decimal :=
  let trimmed := trimEnd digits
  match trimStart trimmed with
  | [] => zero
  | significant =>
    ⟨negative, significant, saturate (exponent + (digits.length - trimmed.length : Nat))⟩

def isZero (decimal : Decimal) : Bool := decimal.digits.isEmpty

/-- The place of the leading digit: the value is below `10 ^ magnitude`. -/
def magnitude (decimal : Decimal) : Int := saturate (decimal.exponent + decimal.digits.length)

/-- The most digits, on either side of the point, that comparison by value relies on. -/
def precision : Nat := 28

/-- Whether `precision` digits before the point and after it hold the value. -/
def fits (decimal : Decimal) : Bool :=
  decimal.isZero ||
    (decimal.digits.length ≤ precision && -precision ≤ decimal.exponent &&
      decimal.magnitude ≤ precision)

/-- Order by absolute value. At one magnitude the digit strings compare like words. -/
def compareAbs (left right : Decimal) : Ordering :=
  match left.isZero, right.isZero with
  | true, true => .eq
  | true, false => .lt
  | false, true => .gt
  | false, false =>
    (compare left.magnitude right.magnitude).then (compare left.digits right.digits)

instance : Ord Decimal where
  compare left right :=
    match left.negative, right.negative with
    | false, true => .gt
    | true, false => .lt
    | false, false => left.compareAbs right
    | true, true => right.compareAbs left

end Decimal

def Number.decimal (number : Number) : Decimal :=
  .normalize number.negative (Digit.ofNat number.whole ++ number.fraction)
    (saturate (number.saturatedExponent - number.fraction.length))

end JsonTree
