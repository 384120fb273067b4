import JsonTree.Proofs.Number.NormalForm
import Mathlib.Algebra.Order.Field.Power
import Mathlib.Algebra.Order.Field.Rat
import Mathlib.Tactic.FieldSimp
import Mathlib.Tactic.Linarith
import Mathlib.Tactic.Positivity
import Mathlib.Tactic.Ring

/-! The rational numbers that literals and normal forms denote.

The normal form of a moderate number denotes what its literal denotes, and so does its
reading as an integer of 64 bits.
-/

set_option autoImplicit false

namespace JsonTree

def signed (negative : Bool) (size : ℚ) : ℚ := if negative then -size else size

theorem cast_tenTo (exponent : Nat) : (tenTo exponent : ℚ) = 10 ^ exponent := by
  rw [tenTo, Nat.pow_eq]
  push_cast
  rfl

theorem signed_zero (negative : Bool) : signed negative 0 = 0 := by
  cases negative <;> simp [signed]

theorem signed_injective (negative : Bool) : Function.Injective (signed negative) := by
  cases negative
  · exact fun _ _ same => same
  · exact neg_injective

theorem signed_inj {first second : Bool} {size other : ℚ} (nonneg : 0 ≤ size)
    (otherNonneg : 0 ≤ other) (nonzero : signed first size ≠ 0)
    (same : signed first size = signed second other) : first = second ∧ size = other := by
  unfold signed at same nonzero
  cases first <;> cases second <;>
    simp only [if_true, Bool.false_eq_true, if_false] at same nonzero
  · exact ⟨rfl, same⟩
  · exact absurd (by linarith) nonzero
  · exact absurd (by linarith) nonzero
  · exact ⟨rfl, neg_injective same⟩

namespace Number

/-- The value of a literal by its parts: the fraction counts behind the point, and the
exponent moves the point. -/
def toRat (number : Number) : ℚ :=
  signed number.negative
    ((number.whole + Digit.value number.fraction / 10 ^ number.fraction.length)
      * 10 ^ number.writtenExponent)

theorem toRat_eq (number : Number) :
    number.toRat
      = signed number.negative (Digit.value number.digits * 10 ^ number.place) := by
  have together : (Digit.value number.digits : ℚ)
      = number.whole * 10 ^ number.fraction.length + Digit.value number.fraction := by
    rw [digits, Digit.value_append, Digit.value_ofNat]
    push_cast
    rw [cast_tenTo]
  rw [toRat, together, place, zpow_sub₀ (by norm_num), zpow_natCast]
  congr 1
  field_simp

end Number

namespace Decimal

def size (decimal : Decimal) : ℚ := Digit.value decimal.digits * 10 ^ decimal.exponent

def toRat (decimal : Decimal) : ℚ := signed decimal.negative decimal.size

theorem toRat_zero : zero.toRat = 0 := by
  simp [toRat, signed, size, zero]

end Decimal

namespace Number

theorem Moderate.toRat_decimal {number : Number} (moderate : number.Moderate) :
    number.decimal.toRat = number.toRat := by
  rw [toRat_eq]
  rcases moderate.decimal_cases with
    ⟨count, zeros, same⟩ | ⟨front, significant, back, split, same, -⟩
  · rw [same, zeros, Digit.value_replicate_zero, Nat.cast_zero, zero_mul, signed_zero,
      Decimal.toRat_zero]
  · have value : Digit.value number.digits = Digit.value significant * tenTo back := by
      rw [split, Digit.value_append, Digit.value_append, Digit.value_replicate_zero,
        Digit.value_replicate_zero, List.length_replicate]
      ring
    rw [same, value, Decimal.toRat, Decimal.size, zpow_add₀ (by norm_num), zpow_natCast]
    push_cast
    rw [cast_tenTo]
    congr 1
    ring

theorem parts_of_integer? {number : Number} {value : Int} (read : number.integer? = some value) :
    number.fraction = [] ∧ number.exponent = none
      ∧ value = if number.negative then -(number.whole : Int) else number.whole := by
  unfold integer? at read
  split at read
  · next whole =>
    simp only [isInteger, Bool.and_eq_true, List.isEmpty_iff, Option.isNone_iff_eq_none] at whole
    exact ⟨whole.1, whole.2, (Option.some.inj read).symm⟩
  · contradiction

theorem integer?_toRat {number : Number} {value : Int}
    (read : number.integer? = some value) : number.toRat = value := by
  obtain ⟨noFraction, noExponent, rfl⟩ := parts_of_integer? read
  rw [toRat, noFraction, writtenExponent, noExponent]
  cases number.negative <;> simp [signed]

theorem integer?_of_wideInteger? {number : Number} {value : Int}
    (read : number.wideInteger? = some value) :
    number.integer? = some value ∧ value.natAbs ≤ greatestUInt64 := by
  simp only [wideInteger?, Option.orElse_eq_orElse, Option.orElse_eq_or, Option.or_eq_some_iff]
    at read
  unfold greatestUInt64
  rcases read with signed | ⟨-, unsigned⟩
  · obtain ⟨integer, inside⟩ := Option.filter_eq_some_iff.mp signed
    have bounds := of_decide_eq_true inside
    unfold leastInt64 greatestInt64 at bounds
    exact ⟨integer, by omega⟩
  · unfold uint64? at unsigned
    split at unsigned
    · contradiction
    · next positive =>
      obtain ⟨integer, inside⟩ := Option.filter_eq_some_iff.mp unsigned
      have value := (parts_of_integer? integer).2.2
      rw [if_neg positive] at value
      have bound := of_decide_eq_true inside
      unfold greatestUInt64 at bound
      exact ⟨integer, by omega⟩

theorem wideInteger?_toRat {number : Number} {value : Int}
    (read : number.wideInteger? = some value) : number.toRat = value :=
  integer?_toRat (integer?_of_wideInteger? read).1

end Number

end JsonTree
