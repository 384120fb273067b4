import JsonTree.Proofs.Number.Nearest

/-! Equality of numbers: what it never misses, and where it is exact.

Numbers of one value are equal on whichever rung they are compared. On the rung of 64-bit
integers and on that of decimals which the precision holds, equal numbers have one value;
the two rungs agree, so it does not matter which of them decides.
-/

set_option autoImplicit false

namespace JsonTree

namespace Decimal

variable {left right : Decimal}

theorem Normal.eq_zero_iff {decimal : Decimal} (normal : decimal.Normal) :
    decimal = .zero ↔ decimal.toRat = 0 := by
  constructor
  · rintro rfl
    exact toRat_zero
  · intro none
    refine normal.zero (by_contra fun nonempty => ?_)
    have positive := normal.size_pos (List.isEmpty_eq_false_iff.mpr nonempty)
    rw [toRat, signed] at none
    split at none <;> linarith

theorem eq_of_size_eq (leftNormal : left.Normal) (rightNormal : right.Normal)
    (leftNonempty : left.digits ≠ []) (rightNonempty : right.digits ≠ [])
    (same : left.size = right.size) :
    left.digits = right.digits ∧ left.exponent = right.exponent := by
  unfold size at same
  rw [value_scaled_eq_share, value_scaled_eq_share] at same
  have places := leading_place_eq leftNonempty rightNonempty leftNormal.trimmed.leading
    rightNormal.trimmed.leading same
  rw [places] at same
  have shares := mul_right_cancel₀ (zpow_ne_zero _ (by norm_num)) same
  have digits : left.digits = right.digits := by
    have order := compares_share leftNormal.trimmed.trailing rightNormal.trimmed.trailing
    refine Std.LawfulEqOrd.eq_of_compare (?_ : compare left.digits right.digits = .eq)
    cases compared : compare left.digits right.digits with
    | eq => rfl
    | lt => exact absurd shares (by rw [compared] at order; exact order.ne)
    | gt => exact absurd shares (by rw [compared] at order; exact (order : _ < _).ne')
  rw [digits] at places
  exact ⟨digits, add_right_cancel places⟩

/-- A value has one normal form. -/
theorem Normal.eq_of_toRat_eq (leftNormal : left.Normal) (rightNormal : right.Normal)
    (same : left.toRat = right.toRat) : left = right := by
  by_cases none : left.toRat = 0
  · rw [leftNormal.eq_zero_iff.mpr none, rightNormal.eq_zero_iff.mpr (same ▸ none)]
  · have leftNonempty : left.digits ≠ [] :=
      fun empty => none (leftNormal.eq_zero_iff.mp (leftNormal.zero empty))
    have rightNonempty : right.digits ≠ [] :=
      fun empty => none (same.trans (rightNormal.eq_zero_iff.mp (rightNormal.zero empty)))
    obtain ⟨signs, sizes⟩ := signed_inj left.size_nonneg right.size_nonneg none same
    obtain ⟨digits, exponents⟩ :=
      eq_of_size_eq leftNormal rightNormal leftNonempty rightNonempty sizes
    obtain ⟨leftNegative, leftDigits, leftExponent⟩ := left
    obtain ⟨rightNegative, rightDigits, rightExponent⟩ := right
    dsimp only at signs digits exponents
    rw [signs, digits, exponents]

end Decimal

namespace Number

variable {left right : Number}

theorem decimal_eq_iff : left.decimal = right.decimal ↔ left.decimal.toRat = right.decimal.toRat :=
  ⟨congrArg Decimal.toRat, left.decimal_normal.eq_of_toRat_eq right.decimal_normal⟩

theorem Moderate.decimal_eq_iff (leftModerate : left.Moderate) (rightModerate : right.Moderate) :
    left.decimal = right.decimal ↔ left.toRat = right.toRat := by
  rw [Number.decimal_eq_iff, leftModerate.toRat_decimal, rightModerate.toRat_decimal]

theorem Moderate.order_eq_iff (leftModerate : left.Moderate) (rightModerate : right.Moderate) :
    left.order right = .eq ↔ left.toRat = right.toRat := by
  rw [← (compare_iff _ _).mpr (leftModerate.compares_toRat rightModerate)]
  exact compare_eq_iff_eq

theorem wideInteger?_eq_iff {first second : Int} (leftRead : left.wideInteger? = some first)
    (rightRead : right.wideInteger? = some second) :
    first = second ↔ left.toRat = right.toRat := by
  rw [wideInteger?_toRat leftRead, wideInteger?_toRat rightRead, Int.cast_inj]

theorem Moderate.fits_of_zero (moderate : left.Moderate) (zero : left.toRat = 0) :
    left.decimal.fits = true := by
  rw [left.decimal_normal.eq_zero_iff.mpr (moderate.toRat_decimal.trans zero)]
  rfl

/-- The rungs on which two numbers can be compared, and the answer of each. -/
inductive Decided (left right : Number) : Bool → Prop where
  | integers {first second : Int} : left.wideInteger? = some first →
      right.wideInteger? = some second → Decided left right (first == second)
  | decimals : left.decimal.fits = true → right.decimal.fits = true →
      Decided left right (left.decimal == right.decimal)
  | nearest {leftNegative rightNegative : Bool} {leftUnits rightUnits : Nat} :
      (left.decimal.fits && right.decimal.fits) = false →
      left.nearest = .finite leftNegative leftUnits →
      right.nearest = .finite rightNegative rightUnits →
      Decided left right (Binary64.near (Binary64.signedUnits leftNegative leftUnits)
        (Binary64.signedUnits rightNegative rightUnits))
  | beyond : (left.decimal.fits && right.decimal.fits) = false →
      (∀ leftNegative leftUnits rightNegative rightUnits,
        left.nearest = .finite leftNegative leftUnits →
        right.nearest ≠ .finite rightNegative rightUnits) →
      Decided left right (left.decimal == right.decimal)

theorem decided_equals (left right : Number) : Decided left right (left.equals right) := by
  unfold equals
  split
  · next leftRead rightRead => exact .integers leftRead rightRead
  · split
    · next fits =>
      obtain ⟨leftFits, rightFits⟩ := Bool.and_eq_true_iff.mp fits
      exact .decimals leftFits rightFits
    · next wide =>
      have wide := Bool.eq_false_iff.mpr wide
      split
      · next leftFinite rightFinite => exact .nearest wide leftFinite rightFinite
      · next infinite => exact .beyond wide infinite

/-- Where floating-point numbers do not decide, numbers are equal just when they have one normal
form. -/
theorem equals_iff_of_not_nearest
    (decides : (left.decimal.fits && right.decimal.fits) = true
      ∨ ∀ leftNegative leftUnits rightNegative rightUnits,
        left.nearest = .finite leftNegative leftUnits →
        right.nearest ≠ .finite rightNegative rightUnits) :
    left.equals right = true ↔ left.decimal = right.decimal := by
  have decided := decided_equals left right
  generalize left.equals right = answer at decided ⊢
  cases decided with
  -- An integer of 64 bits has few digits and no exponent, so its normal form has its value.
  | integers leftRead rightRead =>
    rw [beq_iff_eq, wideInteger?_eq_iff leftRead rightRead,
      (moderate_of_wideInteger? leftRead).decimal_eq_iff (moderate_of_wideInteger? rightRead)]
  | decimals | beyond => exact beq_iff_eq
  | nearest wide leftFinite rightFinite =>
    rcases decides with fit | infinite
    · rw [fit] at wide
      contradiction
    · exact absurd rightFinite (infinite _ _ _ _ leftFinite)

/-- Numbers that the precision holds are equal just when they have one normal form. -/
theorem equals_iff_of_fits (leftFits : left.decimal.fits = true)
    (rightFits : right.decimal.fits = true) :
    left.equals right = true ↔ left.decimal = right.decimal :=
  equals_iff_of_not_nearest (.inl (by rw [leftFits, rightFits]; rfl))

/-- No rung tells apart what has one value. -/
theorem Moderate.equals_of_toRat_eq (leftModerate : left.Moderate)
    (rightModerate : right.Moderate) (same : left.toRat = right.toRat) :
    left.equals right = true := by
  have form := (leftModerate.decimal_eq_iff rightModerate).mpr same
  have decided := decided_equals left right
  generalize left.equals right = answer at decided ⊢
  cases decided with
  | integers leftRead rightRead =>
    exact beq_iff_eq.mpr ((wideInteger?_eq_iff leftRead rightRead).mpr same)
  | decimals | beyond => exact beq_iff_eq.mpr form
  | nearest wide leftFinite rightFinite =>
    -- Both zeros fit the precision, so what comes here has one sign.
    have nonzero : left.toRat ≠ 0 := by
      intro zero
      rw [← form, leftModerate.fits_of_zero zero] at wide
      contradiction
    have rounded := nearest_eq_of_toRat_eq same nonzero
    rw [leftFinite, rightFinite] at rounded
    obtain ⟨rfl, rfl⟩ := Binary64.finite.inj rounded
    exact Binary64.near_self _

/-- Two numbers of one value are always equal. Between two integers of 64 bits, and between
two numbers that the precision holds, no others are, and equality is that of the order. -/
theorem equals_complete_and_exact (leftModerate : left.Moderate)
    (rightModerate : right.Moderate) :
    (left.toRat = right.toRat → left.equals right = true)
      ∧ (left.wideInteger?.isSome ∧ right.wideInteger?.isSome
            ∨ left.decimal.fits ∧ right.decimal.fits →
          (left.equals right = true ↔ left.toRat = right.toRat)
            ∧ (left.equals right = true ↔ left.order right = .eq)) := by
  refine ⟨leftModerate.equals_of_toRat_eq rightModerate, fun window => ?_⟩
  rw [leftModerate.order_eq_iff rightModerate, and_self]
  rcases window with ⟨leftWide, rightWide⟩ | ⟨leftFits, rightFits⟩
  · obtain ⟨first, leftRead⟩ := Option.isSome_iff_exists.mp leftWide
    obtain ⟨second, rightRead⟩ := Option.isSome_iff_exists.mp rightWide
    rw [← wideInteger?_eq_iff leftRead rightRead, equals, leftRead, rightRead]
    exact beq_iff_eq
  · rw [equals_iff_of_fits leftFits rightFits, leftModerate.decimal_eq_iff rightModerate]

/-- One value beyond the precision in two spellings, and two values inside it that are
rounded to one floating-point number. -/
theorem equals_complete_and_exact_rungs :
    let long : Number := ⟨false, 123456789012345678901234567890, [1, 2, 3], none⟩
    let shifted : Number :=
      ⟨false, 123456789012345678901234567890123, [0], some ⟨true, 0, [3]⟩⟩
    let tenth : Number := ⟨false, 0, [1], none⟩
    let above : Number := ⟨false, 1, [0, 0, 0, 0, 0, 0, 0, 0, 0, 0, 0, 0, 0, 0, 0, 0, 0, 0, 1],
      some ⟨true, 1, []⟩⟩
    long.Moderate ∧ shifted.Moderate ∧ long.decimal.fits = false ∧ long.toRat = shifted.toRat
      ∧ long.equals shifted = true
      ∧ tenth.Moderate ∧ above.Moderate ∧ tenth.decimal.fits = true ∧ above.decimal.fits = true
      ∧ tenth.nearest = above.nearest
      ∧ (tenth.equals above = true ↔ tenth.order above = .eq) ∧ tenth.order above = .lt := by
  intro long shifted tenth above
  have longModerate : long.Moderate := by decide +kernel
  have shiftedModerate : shifted.Moderate := by decide +kernel
  have tenthModerate : tenth.Moderate := by decide +kernel
  have aboveModerate : above.Moderate := by decide +kernel
  have tenthFits : tenth.decimal.fits = true := by decide +kernel
  have aboveFits : above.decimal.fits = true := by decide +kernel
  have same : long.toRat = shifted.toRat :=
    (longModerate.decimal_eq_iff shiftedModerate).mp (by decide +kernel)
  have outside := equals_complete_and_exact longModerate shiftedModerate
  have inside := equals_complete_and_exact tenthModerate aboveModerate
  exact ⟨longModerate, shiftedModerate, by decide +kernel, same, outside.1 same, tenthModerate,
    aboveModerate, tenthFits, aboveFits, by decide +kernel,
    (inside.2 (.inr ⟨tenthFits, aboveFits⟩)).2, by decide +kernel⟩

end Number

end JsonTree
