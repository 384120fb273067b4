import JsonTree.Number.Binary64
import JsonTree.Proofs.Digit
import Mathlib.Data.List.TakeWhile

/-! What the decimal normal form of a number looks like.

Normalizing takes zeros from both ends and nothing else. While the written exponent and
the count of the digits stay below `2 ^ 62`, no exponent is cut off.
-/

set_option autoImplicit false

namespace JsonTree

def InInt64 (value : Int) : Prop := leastInt64 ≤ value ∧ value ≤ greatestInt64

instance (value : Int) : Decidable (InInt64 value) :=
  inferInstanceAs (Decidable (leastInt64 ≤ value ∧ value ≤ greatestInt64))

theorem saturate_inInt64 (value : Int) : InInt64 (saturate value) := by
  unfold InInt64 saturate leastInt64 greatestInt64
  omega

theorem InInt64.saturate {value : Int} (inside : InInt64 value) : saturate value = value :=
  saturate_of_mem inside.1 inside.2

theorem eq_replicate_zero {digits : List Digit}
    (zeros : ∀ digit ∈ digits, (digit.val == 0) = true) :
    digits = List.replicate digits.length 0 :=
  List.eq_replicate_of_mem fun digit member => Fin.ext (beq_iff_eq.mp (zeros digit member))

namespace Decimal

structure Trimmed (digits : List Digit) : Prop where
  leading : ∀ first ∈ digits.head?, first ≠ 0
  trailing : ∀ last ∈ digits.getLast?, last ≠ 0

theorem Trimmed.value_pos {digits : List Digit} (trimmed : Trimmed digits)
    (nonempty : digits ≠ []) : 0 < Digit.value digits := by
  obtain ⟨first, more, rfl⟩ := List.exists_cons_of_ne_nil nonempty
  exact Nat.lt_of_lt_of_le (tenTo_pos more.length)
    (Digit.le_value (trimmed.leading first rfl) more)

theorem trimStart_split (digits : List Digit) :
    ∃ count, digits = List.replicate count 0 ++ trimStart digits := by
  have zeros := eq_replicate_zero fun _ => (List.mem_takeWhile_imp : _ ∈ digits.takeWhile _ → _)
  exact ⟨_, (List.takeWhile_append_dropWhile.symm.trans (congrArg (· ++ _) zeros))⟩

theorem trimStart_leading (digits : List Digit) :
    ∀ first ∈ (trimStart digits).head?, first ≠ 0 := by
  rintro first front rfl
  have stop := List.head?_dropWhile_not (fun digit : Digit => digit.val == 0) digits
  rw [trimStart] at front
  rw [Option.mem_def.mp front] at stop
  contradiction

theorem trimEnd_split (digits : List Digit) :
    ∃ count, digits = trimEnd digits ++ List.replicate count 0 := by
  obtain ⟨count, split⟩ := trimStart_split digits.reverse
  refine ⟨count, ?_⟩
  have back := congrArg List.reverse split
  rwa [List.reverse_reverse, List.reverse_append, List.reverse_replicate] at back

theorem trimEnd_trailing (digits : List Digit) : ∀ last ∈ (trimEnd digits).getLast?, last ≠ 0 := by
  intro last back
  refine trimStart_leading digits.reverse last ?_
  rwa [trimEnd, List.getLast?_reverse] at back

/-- What normalizing does: nothing is left of zeros alone; otherwise zeros go from both
ends, and those from the right count into the exponent. -/
theorem normalize_cases (negative : Bool) (digits : List Digit) (exponent : Int) :
    (∃ count, digits = List.replicate count 0 ∧ normalize negative digits exponent = zero)
      ∨ ∃ front significant back,
        digits = List.replicate front 0 ++ significant ++ List.replicate back 0
          ∧ significant ≠ [] ∧ Trimmed significant
          ∧ normalize negative digits exponent
            = ⟨negative, significant, saturate (exponent + (back : Nat))⟩ := by
  obtain ⟨back, backSplit⟩ := trimEnd_split digits
  obtain ⟨front, frontSplit⟩ := trimStart_split (trimEnd digits)
  -- The length tells how many zeros went from the end.
  have dropped : digits.length - (trimEnd digits).length = back := by
    have total := congrArg List.length backSplit
    rw [List.length_append, List.length_replicate] at total
    omega
  unfold normalize
  dsimp only
  rw [dropped]
  split
  · next empty =>
    refine .inl ⟨front + back, ?_, rfl⟩
    rw [empty, List.append_nil] at frontSplit
    rwa [frontSplit, List.replicate_append_replicate] at backSplit
  · next nonempty =>
    refine .inr ⟨front, _, back, ?_, nonempty, ⟨trimStart_leading _, fun last member => ?_⟩, rfl⟩
    · rwa [← frontSplit]
    · refine trimEnd_trailing digits last ?_
      rw [frontSplit, List.getLast?_append, member, Option.some_or]
      rfl

/-- No zero at either end, and one form of zero. -/
structure Normal (decimal : Decimal) : Prop where
  trimmed : Trimmed decimal.digits
  zero : decimal.digits = [] → decimal = zero

theorem normalize_normal (negative : Bool) (digits : List Digit) (exponent : Int) :
    (normalize negative digits exponent).Normal := by
  rcases normalize_cases negative digits exponent with
    ⟨_, -, same⟩ | ⟨_, _, _, -, nonempty, trimmed, same⟩
  · rw [same]
    exact ⟨⟨by simp [zero], by simp [zero]⟩, fun _ => rfl⟩
  · rw [same]
    exact ⟨trimmed, fun empty => absurd empty nonempty⟩

/-- The place of the leading digit is inside the 64-bit range, so nothing is cut off. -/
def Exact (decimal : Decimal) : Prop :=
  decimal.magnitude = decimal.exponent + decimal.digits.length

theorem fits_iff {decimal : Decimal} (nonempty : decimal.digits ≠ []) :
    decimal.fits = true ↔ decimal.digits.length ≤ precision
      ∧ -(precision : Int) ≤ decimal.exponent ∧ decimal.magnitude ≤ precision := by
  rw [fits, isZero, List.isEmpty_eq_false_iff.mpr nonempty, Bool.false_or, Bool.and_eq_true,
    Bool.and_eq_true, decide_eq_true_iff, decide_eq_true_iff, decide_eq_true_iff, and_assoc]

structure Canonical (decimal : Decimal) : Prop where
  normal : decimal.Normal
  exact : decimal.Exact

end Decimal

namespace Number

def digits (number : Number) : List Digit := Digit.ofNat number.whole ++ number.fraction

theorem length_digits (number : Number) : number.fraction.length < number.digits.length := by
  have whole := List.length_pos_iff.mpr (Digit.ofNat_ne_nil number.whole)
  rw [digits, List.length_append]
  omega

def place (number : Number) : Int := number.writtenExponent - number.fraction.length

/-- The written exponent and the count of the digits are below `2 ^ 62`. -/
structure Moderate (number : Number) : Prop where
  exponent : number.writtenExponent.natAbs < 0x4000000000000000
  digits : number.digits.length < 0x4000000000000000

instance (number : Number) : Decidable number.Moderate :=
  decidable_of_iff (number.writtenExponent.natAbs < 0x4000000000000000
      ∧ number.digits.length < 0x4000000000000000)
    ⟨fun both => ⟨both.1, both.2⟩, fun moderate => ⟨moderate.exponent, moderate.digits⟩⟩

theorem decimal_normal (number : Number) : number.decimal.Normal :=
  Decimal.normalize_normal _ _ _

/-- The exponent counts as it is written, or as half of the range on the side it leaves. -/
theorem saturatedExponent_cases (number : Number) :
    InInt64 number.writtenExponent ∧ number.saturatedExponent = number.writtenExponent
      ∨ greatestInt64 < number.writtenExponent
        ∧ number.saturatedExponent = greatestInt64 / 2
      ∨ number.writtenExponent < leastInt64 ∧ number.saturatedExponent = leastInt64 / 2 := by
  unfold InInt64 writtenExponent Number.saturatedExponent Exponent.saturated
  cases number.exponent with
  | none => exact .inl ⟨by decide, rfl⟩
  | some exponent =>
    dsimp only
    split
    · next inside => exact .inl ⟨inside, rfl⟩
    · next outside =>
      -- What leaves the range leaves it on the side of its sign.
      unfold Exponent.value leastInt64 greatestInt64 at outside
      unfold Exponent.value leastInt64 greatestInt64
      cases sign : exponent.negative <;>
        simp only [sign, if_true, Bool.false_eq_true, if_false, and_true] at outside ⊢ <;> omega

theorem Moderate.saturatedExponent {number : Number} (moderate : number.Moderate) :
    number.saturatedExponent = number.writtenExponent := by
  have bound := moderate.exponent
  have cases := number.saturatedExponent_cases
  unfold greatestInt64 leastInt64 at cases
  omega

theorem Moderate.place_bounds {number : Number} (moderate : number.Moderate) :
    leastInt64 ≤ number.place ∧ number.place + number.digits.length ≤ greatestInt64 := by
  have exponentBound := moderate.exponent
  have digitsBound := moderate.digits
  have fractionBound := number.length_digits
  unfold place leastInt64 greatestInt64
  omega

theorem Moderate.decimal_eq {number : Number} (moderate : number.Moderate) :
    number.decimal = .normalize number.negative number.digits number.place := by
  obtain ⟨lower, upper⟩ := moderate.place_bounds
  have inside : saturate number.place = number.place := saturate_of_mem lower (by omega)
  rw [decimal, moderate.saturatedExponent, ← place, inside, Number.digits]

/-- The normal form of a moderate number: only zeros go, and those at the end count into
the exponent. -/
theorem Moderate.decimal_cases {number : Number} (moderate : number.Moderate) :
    (∃ count, number.digits = List.replicate count 0 ∧ number.decimal = .zero)
      ∨ ∃ front significant back,
        number.digits = List.replicate front 0 ++ significant ++ List.replicate back 0
          ∧ number.decimal = ⟨number.negative, significant, number.place + (back : Nat)⟩
          ∧ number.decimal.Exact := by
  obtain ⟨lower, upper⟩ := moderate.place_bounds
  rw [moderate.decimal_eq]
  rcases Decimal.normalize_cases number.negative number.digits number.place with
    zeros | ⟨front, significant, back, split, -, -, same⟩
  · exact .inl zeros
  · have total := congrArg List.length split
    rw [List.length_append, List.length_append, List.length_replicate, List.length_replicate]
      at total
    have inside : saturate (number.place + (back : Nat)) = number.place + (back : Nat) :=
      saturate_of_mem (by omega) (by omega)
    rw [same, inside]
    refine .inr ⟨front, significant, back, split, rfl, ?_⟩
    exact saturate_of_mem (by dsimp only; omega) (by dsimp only; omega)

theorem Moderate.decimal_canonical {number : Number} (moderate : number.Moderate) :
    number.decimal.Canonical := by
  refine ⟨number.decimal_normal, ?_⟩
  rcases moderate.decimal_cases with ⟨-, -, same⟩ | ⟨-, -, -, -, -, exact⟩
  · rw [same]
    rfl
  · exact exact

end Number

end JsonTree
