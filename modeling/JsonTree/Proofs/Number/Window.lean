import JsonTree.Proofs.Number.Equality

/-! Numbers that the decimal precision holds.

A written exponent that is cut off at an end of the 64-bit range can come back into the
precision only behind as many digits as the range has places. Up to `2 ^ 62` digits, a
number that the precision holds is therefore moderate or zero, whatever exponent is
written, and its normal form has its value.
-/

set_option autoImplicit false

namespace JsonTree.Number

variable {number left right : Number}

/-- The precision holds the value, and the digits do not outweigh a cut exponent. -/
structure Windowed (number : Number) : Prop where
  fits : number.decimal.fits = true
  short : number.digits.length + Decimal.precision < 0x4000000000000000

instance (number : Number) : Decidable number.Windowed :=
  decidable_of_iff (number.decimal.fits = true
      ∧ number.digits.length + Decimal.precision < 0x4000000000000000)
    ⟨fun both => ⟨both.1, both.2⟩, fun windowed => ⟨windowed.fits, windowed.short⟩⟩

theorem exponent_bounds_of_fits {decimal : Decimal} (fits : decimal.fits = true)
    (nonzero : decimal.digits ≠ []) :
    -(Decimal.precision : Int) ≤ decimal.exponent ∧ decimal.exponent ≤ Decimal.precision := by
  obtain ⟨-, lower, upper⟩ := (Decimal.fits_iff nonzero).mp fits
  refine ⟨lower, ?_⟩
  unfold Decimal.magnitude saturate leastInt64 greatestInt64 at upper
  unfold Decimal.precision at upper ⊢
  omega

theorem Windowed.moderate_or_zero (windowed : number.Windowed) :
    number.Moderate ∨ number.decimal = .zero ∧ number.toRat = 0 := by
  have short := windowed.short
  have fraction := number.length_digits
  rcases Decimal.normalize_cases number.negative number.digits
      (saturate (number.saturatedExponent - number.fraction.length)) with
    ⟨count, zeros, same⟩ | ⟨front, significant, back, split, nonempty, -, same⟩
  · refine .inr ⟨same, ?_⟩
    rw [toRat_eq, zeros, Digit.value_replicate_zero, Nat.cast_zero, zero_mul, signed_zero]
  · have form : number.decimal = _ := same
    have total := congrArg List.length split
    rw [List.length_append, List.length_append, List.length_replicate, List.length_replicate]
      at total
    obtain ⟨lower, upper⟩ := exponent_bounds_of_fits windowed.fits (form ▸ nonempty)
    rw [form] at lower upper
    dsimp only at lower upper
    have some := List.length_pos_iff.mpr nonempty
    -- Too few digits stand behind the point to bring a cut exponent back to the precision.
    have near : number.saturatedExponent.natAbs < 0x3fffffffffffffff := by
      unfold Decimal.precision at lower upper short
      unfold saturate leastInt64 greatestInt64 at lower upper
      omega
    have exact : number.saturatedExponent = number.writtenExponent := by
      have cases := number.saturatedExponent_cases
      unfold greatestInt64 leastInt64 at cases
      omega
    refine .inl ⟨?_, by omega⟩
    rw [← exact]
    omega

theorem Windowed.toRat_decimal (windowed : number.Windowed) :
    number.decimal.toRat = number.toRat := by
  rcases windowed.moderate_or_zero with moderate | ⟨form, value⟩
  · exact moderate.toRat_decimal
  · rw [form, value, Decimal.toRat_zero]

theorem Windowed.equals_iff (leftWindowed : left.Windowed) (rightWindowed : right.Windowed) :
    left.equals right = true ↔ left.toRat = right.toRat := by
  rw [equals_iff_of_fits leftWindowed.fits rightWindowed.fits, decimal_eq_iff,
    leftWindowed.toRat_decimal, rightWindowed.toRat_decimal]

theorem equals_self (number : Number) : number.equals number = true := by
  have decided := decided_equals number number
  generalize number.equals number = answer at decided ⊢
  cases decided with
  | integers first second =>
    rw [first] at second
    exact beq_iff_eq.mpr (Option.some.inj second)
  | decimals | beyond => exact beq_self_eq_true _
  | nearest wide first second =>
    rw [first] at second
    obtain ⟨rfl, rfl⟩ := Binary64.finite.inj second
    exact Binary64.near_self _

end JsonTree.Number
