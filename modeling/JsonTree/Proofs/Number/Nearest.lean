import JsonTree.Proofs.Number.Order

/-! The nearest floating-point number of a literal depends on its value alone.

A literal is rounded through a quotient of natural numbers, and the quotient of one value
can be written in many ways. Rounding asks for a floor and for the side of a half on which
the rest lies, and neither changes when both parts of the quotient are multiplied.
-/

set_option autoImplicit false

namespace JsonTree

namespace Binary64

theorem roundDiv_scale (numerator denominator : Nat) {factor : Nat} (positive : 0 < factor) :
    roundDiv (numerator * factor) (denominator * factor) = roundDiv numerator denominator := by
  have twice : 2 * (numerator * factor % (denominator * factor))
      = 2 * (numerator % denominator) * factor := by
    rw [Nat.mul_mod_mul_right, Nat.mul_assoc]
  unfold roundDiv
  simp only [twice, Nat.mul_div_mul_right _ _ positive, Nat.mul_lt_mul_right positive]

theorem roundUnits_scale (numerator denominator : Nat) {factor : Nat} (positive : 0 < factor) :
    roundUnits (numerator * factor) (denominator * factor) = roundUnits numerator denominator := by
  unfold roundUnits
  simp only [Nat.mul_div_mul_right _ _ positive]
  rw [Nat.mul_right_comm, roundDiv_scale _ _ positive]

theorem roundUnits_congr {numerator denominator other below : Nat} (positive : 0 < denominator)
    (belowPositive : 0 < below)
    (same : (numerator : ℚ) / denominator = other / below) :
    roundUnits numerator denominator = roundUnits other below := by
  have cross : numerator * below = other * denominator := by
    have nonzero : (denominator : ℚ) ≠ 0 := Nat.cast_ne_zero.mpr positive.ne'
    have belowNonzero : (below : ℚ) ≠ 0 := Nat.cast_ne_zero.mpr belowPositive.ne'
    exact_mod_cast (div_eq_div_iff nonzero belowNonzero).mp same
  calc roundUnits numerator denominator
      = roundUnits (numerator * below) (denominator * below) :=
        (roundUnits_scale _ _ belowPositive).symm
    _ = roundUnits (other * denominator) (below * denominator) := by
        rw [cross, Nat.mul_comm denominator]
    _ = roundUnits other below := roundUnits_scale _ _ positive

theorem div_le_roundDiv (numerator denominator : Nat) :
    numerator / denominator ≤ roundDiv numerator denominator := by
  unfold roundDiv
  dsimp only
  split
  · exact Nat.le_refl _
  · split <;> omega

theorem twoTo_le_roundUnits {exponent numerator denominator : Nat} (positive : 0 < denominator)
    (reached : twoTo exponent * denominator ≤ numerator) :
    twoTo exponent ≤ roundUnits numerator denominator := by
  have quotient := (Nat.le_div_iff_mul_le positive).mpr reached
  have rounded := div_le_roundDiv numerator
    (denominator * spacing (numerator / denominator))
  rw [← Nat.div_div_eq_div_mul] at rounded
  unfold roundUnits
  dsimp only
  generalize numerator / denominator = floor at quotient rounded ⊢
  have nonzero : floor ≠ 0 := (Nat.lt_of_lt_of_le (twoTo_pos exponent) quotient).ne'
  have power : twoTo exponent ≤ twoTo floor.log2 := twoTo_le ((Nat.le_log2 nonzero).mpr quotient)
  -- The highest power of two below the quotient is a multiple of the spacing.
  have steps : twoTo floor.log2 / spacing floor ≤ floor / spacing floor :=
    Nat.div_le_div_right (Nat.log2_self_le nonzero)
  have dvd : spacing floor ∣ twoTo floor.log2 := twoTo_dvd (Nat.sub_le _ _)
  calc twoTo exponent
      ≤ twoTo floor.log2 := power
    _ = twoTo floor.log2 / spacing floor * spacing floor := (Nat.div_mul_cancel dvd).symm
    _ ≤ _ := Nat.mul_le_mul_right _ (Nat.le_trans steps rounded)

theorem roundUnits_eq_zero {numerator denominator : Nat} (small : 2 * numerator < denominator) :
    roundUnits numerator denominator = 0 := by
  have floor : numerator / denominator = 0 := Nat.div_eq_of_lt (by omega)
  have rest : numerator % denominator = numerator := Nat.mod_eq_of_lt (by omega)
  unfold roundUnits roundDiv
  simp only [floor, show spacing 0 = 1 from rfl, Nat.mul_one, rest, if_pos small]

/-- A scaled coefficient is rounded as a quotient that counts it in units. -/
theorem ofScaled_eq (negative : Bool) (coefficient : Nat) (exponent : Int) :
    ∃ numerator denominator : Nat, 0 < denominator
      ∧ (numerator : ℚ) / denominator = coefficient * 10 ^ exponent * twoTo 1074
      ∧ ofScaled negative coefficient exponent
        = ofUnits negative (roundUnits numerator denominator) := by
  unfold ofScaled
  split
  · next whole =>
    refine ⟨_, 1, Nat.one_pos, ?_, rfl⟩
    rw [Nat.cast_one, div_one, Nat.cast_mul, Nat.cast_mul, cast_tenTo, ← zpow_natCast,
      Int.toNat_of_nonneg whole]
  · next below =>
    refine ⟨_, _, tenTo_pos _, ?_, rfl⟩
    have opposite : ((-exponent).toNat : Int) = -exponent := Int.toNat_of_nonneg (by omega)
    rw [Nat.cast_mul, cast_tenTo, ← zpow_natCast, opposite, zpow_neg, div_inv_eq_mul]
    ring

theorem ofScaled_congr (negative : Bool) {coefficient other : Nat} {exponent power : Int}
    (same : (coefficient : ℚ) * 10 ^ exponent = other * 10 ^ power) :
    ofScaled negative coefficient exponent = ofScaled negative other power := by
  obtain ⟨numerator, denominator, positive, quotient, rounded⟩ :=
    ofScaled_eq negative coefficient exponent
  obtain ⟨otherNumerator, otherDenominator, otherPositive, otherQuotient, otherRounded⟩ :=
    ofScaled_eq negative other power
  have equal : (numerator : ℚ) / denominator = otherNumerator / otherDenominator := by
    rw [quotient, otherQuotient, same]
  rw [rounded, otherRounded, roundUnits_congr positive otherPositive equal]

theorem ofScaled_large (negative : Bool) {coefficient : Nat} {exponent : Int}
    (large : (10 : ℚ) ^ (309 : Int) ≤ coefficient * 10 ^ exponent) :
    ofScaled negative coefficient exponent = .infinite negative := by
  obtain ⟨numerator, denominator, positive, quotient, rounded⟩ :=
    ofScaled_eq negative coefficient exponent
  have beyond : (limit : ℚ) ≤ 10 ^ (309 : Int) * twoTo 1074 := by
    have whole : limit ≤ tenTo 309 * twoTo 1074 := by decide +kernel
    rw [show (10 : ℚ) ^ (309 : Int) = 10 ^ 309 from zpow_natCast 10 309, ← cast_tenTo]
    exact_mod_cast whole
  have reached : (limit : ℚ) ≤ numerator / denominator :=
    quotient ▸ beyond.trans (mul_le_mul_of_nonneg_right large (Nat.cast_nonneg _))
  rw [le_div_iff₀ (Nat.cast_pos.mpr positive)] at reached
  have least : limit ≤ roundUnits numerator denominator :=
    twoTo_le_roundUnits positive (by exact_mod_cast reached)
  rw [rounded, ofUnits, if_neg (Nat.not_lt.mpr least)]

theorem ofScaled_small (negative : Bool) {coefficient : Nat} {exponent : Int}
    (small : (coefficient : ℚ) * 10 ^ exponent ≤ 10 ^ (-324 : Int)) :
    ofScaled negative coefficient exponent = .finite negative 0 := by
  obtain ⟨numerator, denominator, positive, quotient, rounded⟩ :=
    ofScaled_eq negative coefficient exponent
  have half : (10 : ℚ) ^ (-324 : Int) * twoTo 1074 < 1 / 2 := by
    have whole : 2 * twoTo 1074 < tenTo 324 := by decide +kernel
    rw [zpow_neg, show (10 : ℚ) ^ (324 : Int) = 10 ^ 324 from zpow_natCast 10 324, ← cast_tenTo,
      inv_mul_eq_div, div_lt_div_iff₀ (Nat.cast_pos.mpr (tenTo_pos 324)) (by norm_num), one_mul,
      mul_comm]
    exact_mod_cast whole
  have below : (numerator : ℚ) / denominator < 1 / 2 :=
    quotient ▸ (mul_le_mul_of_nonneg_right small (Nat.cast_nonneg _)).trans_lt half
  rw [div_lt_div_iff₀ (Nat.cast_pos.mpr positive) (by norm_num), one_mul, mul_comm] at below
  rw [rounded, roundUnits_eq_zero (by exact_mod_cast below), ofUnits,
    if_pos (show 0 < limit from twoTo_pos 2098)]

theorem near_self (units : Int) : near units units = true := by
  rw [near, Int.sub_self]
  decide +kernel

end Binary64

namespace Decimal

theorem value_trimStart (digits : List Digit) :
    Digit.value (trimStart digits) = Digit.value digits := by
  obtain ⟨count, split⟩ := trimStart_split digits
  have value := congrArg Digit.value split
  rw [Digit.value_append, Digit.value_replicate_zero, Nat.zero_mul, Nat.zero_add] at value
  exact value.symm

theorem trimStart_eq_nil_iff {digits : List Digit} :
    trimStart digits = [] ↔ Digit.value digits = 0 := by
  constructor
  · intro empty
    rw [← value_trimStart, empty, Digit.value_nil]
  · intro zero
    by_contra nonempty
    obtain ⟨first, more, split⟩ := List.exists_cons_of_ne_nil nonempty
    have leading : first ≠ 0 := trimStart_leading digits first (by rw [split]; rfl)
    have reached := Digit.le_value leading more
    rw [← split, value_trimStart, zero] at reached
    exact absurd (tenTo_pos more.length) (Nat.not_lt.mpr reached)

end Decimal

/-- Where digits are taken for infinite or for zero by their place alone, they would be rounded to
that. -/
theorem Binary64.ofDigits_eq (negative : Bool) (digits : List Digit) (exponent : Int) :
    ofDigits negative digits exponent = ofScaled negative (Digit.value digits) exponent := by
  unfold ofDigits
  dsimp only
  split
  · next none =>
    rw [Decimal.trimStart_eq_nil_iff.mp none, ofScaled_small]
    simp
  · next significant =>
    have size := value_scaled_eq_share (Decimal.trimStart digits) exponent
    rw [Decimal.value_trimStart] at size ⊢
    split
    · next large =>
      -- The first digit is a tenth of its place at least, which is beyond the largest number.
      have tenth := tenth_le_share significant (Decimal.trimStart_leading digits)
      refine (ofScaled_large negative ?_).symm
      calc (10 : ℚ) ^ (309 : Int)
          = 1 / 10 * 10 ^ (310 : Int) := by
            rw [show (310 : Int) = 309 + 1 from rfl, zpow_add_one₀ (by norm_num)]
            ring
        _ ≤ 1 / 10 * 10 ^ (exponent + (Decimal.trimStart digits).length) :=
          mul_le_mul_of_nonneg_left (zpow_le_zpow_right₀ (by norm_num) (by omega)) (by norm_num)
        _ ≤ _ := size ▸ mul_le_mul_of_nonneg_right tenth (by positivity)
    · split
      · next small =>
        -- All digits together stay below their place, which half a unit exceeds.
        have share := share_lt_one (Decimal.trimStart digits)
        refine (ofScaled_small negative ?_).symm
        calc (Digit.value digits : ℚ) * 10 ^ exponent
            ≤ 1 * 10 ^ (exponent + (Decimal.trimStart digits).length) :=
              size ▸ mul_le_mul_of_nonneg_right share.le (by positivity)
          _ = 10 ^ (exponent + (Decimal.trimStart digits).length) := one_mul _
          _ ≤ _ := zpow_le_zpow_right₀ (by norm_num) (by omega)
      · rfl

/-- Rounding sees the value of digits and exponent and nothing else of them. -/
theorem Binary64.ofDigits_congr (negative : Bool) {left right : List Digit}
    {leftExponent rightExponent : Int}
    (same : (Digit.value left : ℚ) * 10 ^ leftExponent
      = Digit.value right * 10 ^ rightExponent) :
    ofDigits negative left leftExponent = ofDigits negative right rightExponent := by
  rw [ofDigits_eq, ofDigits_eq, ofScaled_congr negative same]

namespace Number

variable {left right : Number}

theorem nearest_eq_of_toRat_eq (same : left.toRat = right.toRat) (nonzero : left.toRat ≠ 0) :
    left.nearest = right.nearest := by
  have leftNonneg : (0 : ℚ) ≤ Digit.value left.digits * 10 ^ left.place := by positivity
  have rightNonneg : (0 : ℚ) ≤ Digit.value right.digits * 10 ^ right.place := by positivity
  rw [toRat_eq, toRat_eq] at same
  rw [toRat_eq] at nonzero
  obtain ⟨signs, sizes⟩ := signed_inj leftNonneg rightNonneg nonzero same
  show Binary64.ofDigits left.negative left.digits left.place
    = Binary64.ofDigits right.negative right.digits right.place
  rw [signs]
  exact Binary64.ofDigits_congr right.negative sizes

end Number

end JsonTree
