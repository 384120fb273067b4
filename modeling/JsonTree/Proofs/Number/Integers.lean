import JsonTree.Proofs.Number.Saturation

/-! Equality of integers that are written without point and exponent.

The nearest floating-point number of an integer is an integer too, since rounding keeps every
factor two that the spacing does not exceed. Two of them are therefore within the tolerance
only when they are one. So integers below `10 ^ 28` are told apart by their normal forms,
those beyond the range of floating point as well, and in between two integers are taken for
one another just when they round to one number.
-/

set_option autoImplicit false

namespace JsonTree

namespace Binary64

theorem roundDiv_of_dvd {numerator denominator : Nat} (positive : 0 < denominator)
    (dvd : denominator ∣ numerator) :
    roundDiv numerator denominator = numerator / denominator := by
  unfold roundDiv
  simp [Nat.mod_eq_zero_of_dvd dvd, positive]

theorem roundUnits_pos {units : Nat} (nonzero : units ≠ 0) : 0 < roundUnits units 1 := by
  have reached : twoTo 0 * 1 ≤ units := Nat.pos_of_ne_zero nonzero
  exact Nat.lt_of_lt_of_le (twoTo_pos 0) (twoTo_le_roundUnits Nat.one_pos reached)

theorem dvd_roundUnits {power units : Nat} (dvd : twoTo power ∣ units) :
    twoTo power ∣ roundUnits units 1 := by
  unfold roundUnits spacing
  dsimp only
  rw [Nat.div_one, Nat.one_mul]
  rcases Nat.le_total power (units.log2 - 52) with coarse | fine
  · exact Nat.dvd_mul_left_of_dvd (twoTo_dvd coarse) _
  · have exact := Nat.dvd_trans (twoTo_dvd fine) dvd
    rwa [roundDiv_of_dvd (twoTo_pos _) exact, Nat.div_mul_cancel exact]

theorem ofScaled_whole (negative : Bool) (coefficient : Nat) :
    ofScaled negative coefficient 0
      = ofUnits negative (roundUnits (coefficient * twoTo 1074) 1) := by
  rw [ofScaled, if_pos (Int.le_refl 0), Int.toNat_zero, show tenTo 0 = 1 from rfl, Nat.mul_one]

theorem ofUnits_eq_finite {negative sign : Bool} {units count : Nat}
    (finite : ofUnits negative units = .finite sign count) : sign = negative ∧ count = units := by
  unfold ofUnits at finite
  split at finite
  · obtain ⟨rfl, rfl⟩ := Binary64.finite.inj finite
    exact ⟨rfl, rfl⟩
  · contradiction

theorem ofDigits_whole {negative sign : Bool} {digits : List Digit} {units : Nat}
    (finite : ofDigits negative digits 0 = .finite sign units) :
    sign = negative ∧ units = roundUnits (Digit.value digits * twoTo 1074) 1 := by
  rw [ofDigits_eq, ofScaled_whole] at finite
  exact ofUnits_eq_finite finite

theorem near_iff_of_dvd {left right : Int} (leftWhole : (twoTo 1074 : Int) ∣ left)
    (rightWhole : (twoTo 1074 : Int) ∣ right) : near left right = true ↔ left = right := by
  constructor
  · intro close
    by_contra apart
    have apart : (left - right).natAbs ≠ 0 := by omega
    have whole : twoTo 1074 ∣ (left - right).natAbs :=
      Int.natCast_dvd.mp (Int.dvd_sub leftWhole rightWhole)
    have small : roundUnits (left - right).natAbs 1 ≤ tolerance := of_decide_eq_true close
    have positive := roundUnits_pos apart
    have least := Nat.le_of_dvd positive (dvd_roundUnits whole)
    have below : tolerance < twoTo 1074 := by decide +kernel
    omega
  · rintro rfl
    exact near_self _

end Binary64

theorem Digit.value_mul_lt_iff {digits : List Digit} (nonempty : digits ≠ [])
    (leading : ∀ first ∈ digits.head?, first ≠ 0) (zeros places : Nat) :
    value digits * tenTo zeros < tenTo places ↔ digits.length + zeros ≤ places := by
  have scaled (first : Nat) : tenTo first * tenTo zeros = tenTo (first + zeros) :=
    (Nat.pow_add 10 first zeros).symm
  constructor
  · intro below
    obtain ⟨first, more, rfl⟩ := List.exists_cons_of_ne_nil nonempty
    have reached := Nat.mul_le_mul_right (tenTo zeros) (le_value (leading first rfl) more)
    rw [scaled] at reached
    have short := (Nat.pow_lt_pow_iff_right (by decide)).mp (Nat.lt_of_le_of_lt reached below)
    rw [List.length_cons]
    omega
  · intro short
    have bound := Nat.mul_lt_mul_of_pos_right (value_lt digits) (tenTo_pos zeros)
    rw [scaled] at bound
    exact Nat.lt_of_lt_of_le bound (Nat.pow_le_pow_right (by decide) short)

namespace Number

variable {number left right : Number} {value first second : Int}

theorem digits_integer (read : number.integer? = some value) :
    Digit.value number.digits = value.natAbs ∧ number.writtenExponent = 0 ∧ number.place = 0 := by
  obtain ⟨noFraction, noExponent, rfl⟩ := parts_of_integer? read
  have written : number.writtenExponent = 0 := by rw [writtenExponent, noExponent]
  refine ⟨?_, written, by rw [place, written, noFraction]; rfl⟩
  rw [digits, noFraction, List.append_nil, Digit.value_ofNat]
  split <;> omega

/-- Nothing is cut off of an integer that a text in memory spells. -/
theorem uncut_integer (read : number.integer? = some value)
    (short : (number.digits.length : Int) ≤ greatestInt64) : number.Uncut := by
  intro _
  obtain ⟨-, written, last⟩ := digits_integer read
  have zeros : number.trailing ≤ number.digits.length := Nat.sub_le ..
  rw [written, last]
  unfold InInt64 leastInt64 greatestInt64 at *
  omega

theorem decimal_integers_iff (leftRead : left.integer? = some first)
    (rightRead : right.integer? = some second)
    (leftShort : (left.digits.length : Int) ≤ greatestInt64)
    (rightShort : (right.digits.length : Int) ≤ greatestInt64) :
    left.decimal = right.decimal ↔ first = second := by
  rw [decimal_eq_iff, (uncut_integer leftRead leftShort).toRat_decimal,
    (uncut_integer rightRead rightShort).toRat_decimal, integer?_toRat leftRead,
    integer?_toRat rightRead, Int.cast_inj]

theorem fits_integer_iff (read : number.integer? = some value)
    (short : (number.digits.length : Int) ≤ greatestInt64) :
    number.decimal.fits = true ↔ value.natAbs < tenTo Decimal.precision := by
  obtain ⟨whole, -, last⟩ := digits_integer read
  rcases number.decimal_form with ⟨zero, form⟩ | ⟨significant, nonempty, trimmed, scaled, form⟩
  · rw [form, ← whole, zero]
    exact iff_of_true rfl (tenTo_pos _)
  · have counted : number.countedPlace = number.trailing := by
      rw [(uncut_integer read short).countedPlace_eq ?_, last, Int.zero_add]
      rw [scaled]
      exact Nat.mul_ne_zero (trimmed.value_pos nonempty).ne' (tenTo_pos _).ne'
    have significant : number.decimal.digits ≠ [] := by rwa [form]
    rw [← whole, scaled, Digit.value_mul_lt_iff nonempty trimmed.leading,
      Decimal.fits_iff significant, form, Decimal.magnitude, counted]
    unfold saturate leastInt64 greatestInt64 Decimal.precision
    dsimp only
    omega

theorem nearest_integer (read : number.integer? = some value) {negative : Bool} {units : Nat}
    (finite : number.nearest = .finite negative units) :
    negative = number.negative
      ∧ units = Binary64.roundUnits (value.natAbs * twoTo 1074) 1 := by
  obtain ⟨whole, -, last⟩ := digits_integer read
  have rounded : Binary64.ofDigits number.negative number.digits number.place
      = .finite negative units := finite
  rw [last] at rounded
  rw [← whole]
  exact Binary64.ofDigits_whole rounded

/-- The nearest number depends on the integer and not on how its sign is written. -/
theorem signedUnits_integer (read : number.integer? = some value) {negative : Bool} {units : Nat}
    (finite : number.nearest = .finite negative units) :
    Binary64.signedUnits negative units
      = value.sign * Binary64.roundUnits (value.natAbs * twoTo 1074) 1 := by
  obtain ⟨rfl, rfl⟩ := nearest_integer read finite
  have spelled := (parts_of_integer? read).2.2
  unfold Binary64.signedUnits
  rcases Int.lt_trichotomy value 0 with below | rfl | above
  · have negative : number.negative = true := by
      by_contra positive
      rw [if_neg positive] at spelled
      omega
    rw [if_pos negative, Int.sign_eq_neg_one_of_neg below, Int.neg_one_mul]
  · rw [Int.natAbs_zero, Nat.zero_mul, Int.sign_zero, Int.zero_mul,
      show Binary64.roundUnits 0 1 = 0 by decide]
    split <;> rfl
  · have positive : ¬ number.negative = true := by
      intro negative
      rw [if_pos negative] at spelled
      omega
    rw [if_neg positive, Int.sign_eq_one_of_pos above, Int.one_mul]

theorem eq_zero_of_nearest (read : number.integer? = some value) {negative : Bool}
    (finite : number.nearest = .finite negative 0) : value = 0 := by
  by_contra nonzero
  have positive := Binary64.roundUnits_pos
    (Nat.mul_ne_zero (Int.natAbs_ne_zero.mpr nonzero) (twoTo_pos 1074).ne')
  rw [← (nearest_integer read finite).2] at positive
  exact Nat.lt_irrefl 0 positive

theorem dvd_signedUnits_integer (read : number.integer? = some value) {negative : Bool}
    {units : Nat} (finite : number.nearest = .finite negative units) :
    (twoTo 1074 : Int) ∣ Binary64.signedUnits negative units := by
  rw [signedUnits_integer read finite]
  exact Int.dvd_mul_of_dvd_right
    (Int.natCast_dvd_natCast.mpr (Binary64.dvd_roundUnits (Nat.dvd_mul_left _ _)))

/-- Two integers with finite nearest numbers are within the tolerance when they are one or when
they round to one number. -/
theorem near_integers_iff (leftRead : left.integer? = some first)
    (rightRead : right.integer? = some second) {leftNegative rightNegative : Bool}
    {leftUnits rightUnits : Nat} (leftFinite : left.nearest = .finite leftNegative leftUnits)
    (rightFinite : right.nearest = .finite rightNegative rightUnits) :
    Binary64.near (Binary64.signedUnits leftNegative leftUnits)
        (Binary64.signedUnits rightNegative rightUnits) = true
      ↔ first = second ∨ left.nearest = right.nearest := by
  rw [Binary64.near_iff_of_dvd (dvd_signedUnits_integer leftRead leftFinite)
    (dvd_signedUnits_integer rightRead rightFinite)]
  constructor
  · intro same
    unfold Binary64.signedUnits at same
    by_cases signs : leftNegative = rightNegative
    · subst signs
      have units : leftUnits = rightUnits := by split at same <;> omega
      exact .inr (by rw [leftFinite, rightFinite, units])
    · -- Numbers of both signs are one only at zero, to which nothing else is rounded.
      obtain ⟨rfl, rfl⟩ : leftUnits = 0 ∧ rightUnits = 0 := by
        cases leftNegative <;> cases rightNegative <;> simp at signs same <;> omega
      rw [eq_zero_of_nearest leftRead leftFinite, eq_zero_of_nearest rightRead rightFinite]
      exact .inl rfl
  · rintro (rfl | same)
    · rw [signedUnits_integer leftRead leftFinite, signedUnits_integer rightRead rightFinite]
    · rw [leftFinite, rightFinite] at same
      obtain ⟨rfl, rfl⟩ := Binary64.finite.inj same
      rfl

/-- Integers of any length that a text in memory spells are equal when they are one, and else
just when one of them has more than 28 digits and both round to one finite number. -/
theorem integers_equal_iff (leftRead : left.integer? = some first)
    (rightRead : right.integer? = some second)
    (leftShort : (left.digits.length : Int) ≤ greatestInt64)
    (rightShort : (right.digits.length : Int) ≤ greatestInt64) :
    left.equals right = true
      ↔ first = second
        ∨ (tenTo 28 ≤ first.natAbs ∨ tenTo 28 ≤ second.natAbs)
          ∧ ∃ negative units, left.nearest = .finite negative units
            ∧ right.nearest = .finite negative units := by
  have forms := decimal_integers_iff leftRead rightRead leftShort rightShort
  have leftFits := fits_integer_iff leftRead leftShort
  have rightFits := fits_integer_iff rightRead rightShort
  have decided := decided_equals left right
  generalize left.equals right = answer at decided ⊢
  -- Where both are wide integers or both fit, neither has more than 28 digits and the answer is
  -- exact; beyond that the nearest numbers are compared, where both sides have a finite one.
  cases decided with
  | integers leftWide rightWide =>
    obtain ⟨leftSame, leftBound⟩ := integer?_of_wideInteger? leftWide
    obtain ⟨rightSame, rightBound⟩ := integer?_of_wideInteger? rightWide
    obtain rfl := Option.some.inj (leftRead.symm.trans leftSame)
    obtain rfl := Option.some.inj (rightRead.symm.trans rightSame)
    have narrow : greatestUInt64 < tenTo 28 := by decide +kernel
    rw [beq_iff_eq]
    refine (or_iff_left ?_).symm
    rintro ⟨large, -⟩
    omega
  | decimals leftHeld rightHeld =>
    rw [beq_iff_eq, forms]
    refine (or_iff_left ?_).symm
    rintro ⟨large | large, -⟩
    · exact absurd (leftFits.mp leftHeld) (Nat.not_lt.mpr large)
    · exact absurd (rightFits.mp rightHeld) (Nat.not_lt.mpr large)
  | @nearest leftNegative rightNegative leftUnits rightUnits wide leftFinite rightFinite =>
    have large : tenTo 28 ≤ first.natAbs ∨ tenTo 28 ≤ second.natAbs := by
      rw [Bool.and_eq_false_iff, ← Bool.not_eq_true, ← Bool.not_eq_true, leftFits, rightFits,
        Nat.not_lt, Nat.not_lt] at wide
      exact wide
    rw [near_integers_iff leftRead rightRead leftFinite rightFinite, leftFinite, rightFinite]
    refine or_congr_right ⟨fun same => ⟨large, _, _, same, rfl⟩, ?_⟩
    rintro ⟨-, negative, units, leftSame, rightSame⟩
    exact leftSame.trans rightSame.symm
  | beyond _ infinite =>
    rw [beq_iff_eq, forms]
    refine (or_iff_left ?_).symm
    rintro ⟨-, negative, units, leftFinite, rightFinite⟩
    exact infinite _ _ _ _ leftFinite rightFinite

/-- Two integers on either side of `10 ^ 28` that round to one number, and two of 310 digits
that both round to infinity. -/
theorem integers_equal_iff_boundary :
    let below : Number := .ofInt 9999999999999999999999999999
    let above : Number := .ofInt 10000000000000000000000000000
    let huge : Number := ⟨false, tenTo 309, [], none⟩
    let other : Number := ⟨false, tenTo 309 + 1, [], none⟩
    below.integer? = some 9999999999999999999999999999
      ∧ above.integer? = some 10000000000000000000000000000 ∧ below.equals above = true
      ∧ huge.integer? = some (tenTo 309) ∧ other.integer? = some (tenTo 309 + 1)
      ∧ huge.equals other = false := by
  intro below above huge other
  have belowRead : below.integer? = some 9999999999999999999999999999 := rfl
  have aboveRead : above.integer? = some 10000000000000000000000000000 := rfl
  have hugeRead : huge.integer? = some (tenTo 309) := by decide +kernel
  have otherRead : other.integer? = some (tenTo 309 + 1) := by decide +kernel
  have rounded := integers_equal_iff belowRead aboveRead (by decide +kernel) (by decide +kernel)
  have beyond := integers_equal_iff hugeRead otherRead (by decide +kernel) (by decide +kernel)
  have infinite : huge.nearest = .infinite false := by decide +kernel
  refine ⟨belowRead, aboveRead, rounded.mpr (.inr ⟨.inr (by decide +kernel), false,
    Binary64.roundUnits (tenTo 28 * twoTo 1074) 1, by decide +kernel, by decide +kernel⟩),
    hugeRead, otherRead, Bool.eq_false_iff.mpr fun equal => ?_⟩
  rcases beyond.mp equal with same | ⟨-, negative, units, finite, -⟩
  · exact absurd same (Int.lt_succ _).ne
  · cases infinite.symm.trans finite

/-- Two integers that are one more than the other are taken for one another. -/
theorem unequal_integers_confused :
    parse "10000000000000000000000000000" = .ok (.ofInt 10000000000000000000000000000)
      ∧ parse "10000000000000000000000000001" = .ok (.ofInt 10000000000000000000000000001)
      ∧ integer? (.ofInt 10000000000000000000000000000) = some 10000000000000000000000000000
      ∧ integer? (.ofInt 10000000000000000000000000001) = some 10000000000000000000000000001
      ∧ (10000000000000000000000000000 : Int) ≠ 10000000000000000000000000001
      ∧ equals (.ofInt 10000000000000000000000000000) (.ofInt 10000000000000000000000000001)
        = true := by
  decide +kernel

end Number

end JsonTree
