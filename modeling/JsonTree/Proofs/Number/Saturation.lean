import JsonTree.Proofs.Number.Equality

/-! Exponents at the ends of the 64-bit range, and equality beyond floating point.

On the way to the normal form an exponent is cut off in three places: as it is written, with
the fraction counted off, and with the zeros at the end counted in. Where none of the cuts
applies, the normal form has the value of the literal. Beyond the range of floating point the
normal forms decide equality, so there it is exact for such literals, and every other literal
is taken for one of them.
-/

set_option autoImplicit false

namespace JsonTree

theorem exists_exponent (value : Int) : ∃ exponent : Exponent, exponent.value = value := by
  obtain ⟨first, more, digits⟩ := List.exists_cons_of_ne_nil (Digit.ofNat_ne_nil value.natAbs)
  refine ⟨⟨decide (value < 0), first, more⟩, ?_⟩
  have size : Digit.value (first :: more) = value.natAbs := by rw [← digits, Digit.value_ofNat]
  simp only [Exponent.value, Exponent.digits, size, decide_eq_true_eq]
  split <;> omega

theorem Decimal.trimEnd_append {significant : List Digit} (nonempty : significant ≠ [])
    (trailing : ∀ last ∈ significant.getLast?, last ≠ 0) (front : List Digit) (back : Nat) :
    trimEnd (front ++ significant ++ List.replicate back 0) = front ++ significant := by
  obtain ⟨others, last, rfl⟩ := List.eq_nil_or_concat significant |>.resolve_left nonempty
  have stops : last ≠ 0 := trailing last (by simp)
  simp [trimEnd, stops]

namespace Number

variable {number left right : Number}

def trailing (number : Number) : Nat :=
  number.digits.length - (Decimal.trimEnd number.digits).length

/-- The power of ten of the last digit other than zero, as the normal form counts it. -/
def countedPlace (number : Number) : Int :=
  saturate (saturate (number.saturatedExponent - number.fraction.length) + number.trailing)

/-- No exponent is cut off: not the written one, not that of the last digit, and not that of
the last digit other than zero. Zero has no such digit. -/
def Uncut (number : Number) : Prop :=
  Digit.value number.digits ≠ 0 →
    InInt64 number.writtenExponent ∧ InInt64 number.place
      ∧ InInt64 (number.place + number.trailing)

instance (number : Number) : Decidable number.Uncut :=
  inferInstanceAs (Decidable (Digit.value number.digits ≠ 0 →
    InInt64 number.writtenExponent ∧ InInt64 number.place
      ∧ InInt64 (number.place + number.trailing)))

/-- The normal form: the digits without the zeros at their ends, at the place that is counted
for the last of them. -/
theorem decimal_form (number : Number) :
    Digit.value number.digits = 0 ∧ number.decimal = .zero
      ∨ ∃ significant, significant ≠ [] ∧ Decimal.Trimmed significant
        ∧ Digit.value number.digits = Digit.value significant * tenTo number.trailing
        ∧ number.decimal = ⟨number.negative, significant, number.countedPlace⟩ := by
  rcases Decimal.normalize_cases number.negative number.digits
      (saturate (number.saturatedExponent - number.fraction.length)) with
    ⟨count, zeros, form⟩ | ⟨front, significant, back, split, nonempty, trimmed, form⟩
  · exact .inl ⟨by rw [zeros, Digit.value_replicate_zero], form⟩
  · have zeros : number.trailing = back := by
      rw [trailing, split, Decimal.trimEnd_append nonempty trimmed.trailing]
      simp
      omega
    refine .inr ⟨significant, nonempty, trimmed, ?_, ?_⟩
    · rw [zeros, split, Digit.value_append, Digit.value_append, Digit.value_replicate_zero,
        Digit.value_replicate_zero, List.length_replicate]
      ring
    · rw [countedPlace, zeros]
      exact form

/-- The digits of the normal form have the value of the literal at the place where the last of
them stands. -/
theorem toRat_significant (number : Number) :
    number.toRat = signed number.decimal.negative
      (Digit.value number.decimal.digits * 10 ^ (number.place + number.trailing)) := by
  rw [toRat_eq]
  rcases number.decimal_form with ⟨zero, form⟩ | ⟨significant, -, -, value, form⟩
  · rw [form, zero, Nat.cast_zero, zero_mul, signed_zero]
    simp [Decimal.zero, signed]
  · rw [form, value, Nat.cast_mul, cast_tenTo, zpow_add₀ (by norm_num), zpow_natCast]
    congr 1
    ring

theorem toRat_decimal_iff (number : Number) :
    number.decimal.toRat = number.toRat
      ↔ Digit.value number.digits = 0 ∨ number.countedPlace = number.place + number.trailing := by
  rw [toRat_significant, Decimal.toRat, Decimal.size]
  rcases number.decimal_form with ⟨zero, form⟩ | ⟨significant, nonempty, trimmed, value, form⟩
  · rw [form]
    exact iff_of_true (by simp [Decimal.zero]) (.inl zero)
  · have positive := (trimmed.value_pos nonempty).ne'
    have nonzero : Digit.value number.digits ≠ 0 := by
      rw [value]
      exact Nat.mul_ne_zero positive (tenTo_pos _).ne'
    rw [or_iff_right nonzero, form]
    constructor
    · intro same
      have sizes := signed_injective number.negative same
      have powers := mul_left_cancel₀ (Nat.cast_ne_zero.mpr positive) sizes
      exact zpow_right_injective₀ (by norm_num) (by norm_num) powers
    · intro same
      rw [same]

theorem Uncut.countedPlace_eq (uncut : number.Uncut) (nonzero : Digit.value number.digits ≠ 0) :
    number.countedPlace = number.place + number.trailing := by
  obtain ⟨written, last, significant⟩ := uncut nonzero
  have counted : number.saturatedExponent = number.writtenExponent := by
    rcases number.saturatedExponent_cases with ⟨-, same⟩ | ⟨above, -⟩ | ⟨below, -⟩
    · exact same
    · exact absurd written.2 (Int.not_le.mpr above)
    · exact absurd written.1 (Int.not_le.mpr below)
  rw [countedPlace, counted, ← place, last.saturate, significant.saturate]

theorem Uncut.toRat_decimal (uncut : number.Uncut) : number.decimal.toRat = number.toRat :=
  number.toRat_decimal_iff.mpr (or_iff_not_imp_left.mpr uncut.countedPlace_eq)

/-- No text in memory has so many digits that two cuts make up for each other. -/
theorem uncut_iff (short : (number.digits.length : Int) ≤ greatestInt64) :
    number.Uncut ↔ number.decimal.toRat = number.toRat := by
  refine ⟨Uncut.toRat_decimal, fun same nonzero => ?_⟩
  have right := (number.toRat_decimal_iff.mp same).resolve_left nonzero
  have fraction := number.length_digits
  have zeros : number.trailing ≤ number.digits.length := Nat.sub_le ..
  have written := number.saturatedExponent_cases
  unfold countedPlace at right
  unfold place at right ⊢
  unfold InInt64 saturate leastInt64 greatestInt64 at *
  omega

def Overflows (number : Number) : Prop := ∃ negative, number.nearest = .infinite negative

/-- Beyond the range of floating point equality is that of the normal forms. -/
theorem equals_iff_decimal_eq (beyond : left.Overflows ∨ right.Overflows) :
    left.equals right = true ↔ left.decimal = right.decimal := by
  refine equals_iff_of_not_nearest (.inr ?_)
  intro leftNegative leftUnits rightNegative rightUnits leftFinite rightFinite
  rcases beyond with ⟨_, infinite⟩ | ⟨_, infinite⟩
  · rw [leftFinite] at infinite
    contradiction
  · rw [rightFinite] at infinite
    contradiction

theorem equals_iff_normal (beyond : left.Overflows ∨ right.Overflows) :
    left.equals right = true ↔ left.decimal.toRat = right.decimal.toRat :=
  (equals_iff_decimal_eq beyond).trans decimal_eq_iff

theorem exists_uncut (number : Number) :
    ∃ other : Number, other.Uncut ∧ other.toRat = number.decimal.toRat := by
  rcases number.decimal_form with ⟨-, form⟩ | ⟨significant, nonempty, trimmed, -, form⟩
  · refine ⟨⟨false, 0, [], none⟩, fun nonzero => absurd ?_ nonzero, ?_⟩
    · simp [digits]
    · rw [form, Decimal.toRat_zero, toRat]
      simp [signed]
  · obtain ⟨exponent, value⟩ := exists_exponent number.countedPlace
    -- The digits are written as an integer, which ends in no zero, and the place as its exponent.
    let other : Number := ⟨number.negative, Digit.value significant, [], some exponent⟩
    have digits : other.digits = significant := by
      obtain ⟨first, more, rfl⟩ := List.exists_cons_of_ne_nil nonempty
      rw [Number.digits, List.append_nil]
      exact Digit.ofNat_value_cons first more fun zero =>
        absurd (Fin.ext zero) (trimmed.leading first rfl)
    have written : other.writtenExponent = number.countedPlace := value
    have last : other.place = number.countedPlace := by rw [place, written]; exact Int.sub_zero _
    have none : other.trailing = 0 := by
      have whole := Decimal.trimEnd_append nonempty trimmed.trailing [] 0
      rw [List.nil_append, List.replicate_zero, List.append_nil] at whole
      rw [trailing, digits, whole, Nat.sub_self]
    have inside : InInt64 number.countedPlace := saturate_inInt64 _
    refine ⟨other, fun _ => ?_, ?_⟩
    · rw [written, last, none]
      exact ⟨inside, inside, by simpa using inside⟩
    · rw [toRat_eq, digits, last, form]
      rfl

/-- Equality beyond the range of floating point is that of the values which the normal forms
have. Between two literals of which nothing is cut off it is that of their own values, and a
literal of which something is cut off is taken for one of these that has another value. -/
theorem equals_exact_beyond_range (beyond : left.Overflows ∨ right.Overflows) :
    (left.Uncut → right.Uncut → (left.equals right = true ↔ left.toRat = right.toRat))
      ∧ (left.equals right = true ↔ left.decimal.toRat = right.decimal.toRat)
      ∧ (left.Overflows → (left.digits.length : Int) ≤ greatestInt64 → ¬ left.Uncut →
        ∃ other : Number, other.Uncut ∧ left.equals other = true ∧ left.toRat ≠ other.toRat) := by
  refine ⟨fun leftUncut rightUncut => ?_, equals_iff_normal beyond, fun overflows short cut => ?_⟩
  · rw [equals_iff_normal beyond, leftUncut.toRat_decimal, rightUncut.toRat_decimal]
  · obtain ⟨other, uncut, value⟩ := left.exists_uncut
    have form : left.decimal.toRat = other.decimal.toRat :=
      value.symm.trans uncut.toRat_decimal.symm
    refine ⟨other, uncut, (equals_iff_normal (.inl overflows)).mpr form, fun same => cut ?_⟩
    exact (uncut_iff short).mpr (value.symm.trans same.symm)

/-- Two literals at the very end of the range, and one that leaves it by a zero at its end. -/
theorem equals_exact_beyond_range_end :
    let scaled : Number :=
      ⟨false, 100, [], some ⟨false, 9, [2, 2, 3, 3, 7, 2, 0, 3, 6, 8, 5, 4, 7, 7, 5, 8, 0, 5]⟩⟩
    let greatest : Number :=
      ⟨false, 1, [], some ⟨false, 9, [2, 2, 3, 3, 7, 2, 0, 3, 6, 8, 5, 4, 7, 7, 5, 8, 0, 7]⟩⟩
    let beyond : Number :=
      ⟨false, 10, [], some ⟨false, 9, [2, 2, 3, 3, 7, 2, 0, 3, 6, 8, 5, 4, 7, 7, 5, 8, 0, 7]⟩⟩
    scaled.Uncut ∧ greatest.Uncut ∧ scaled.toRat = greatest.toRat
      ∧ beyond.Overflows ∧ ¬ beyond.Uncut ∧ ∃ other : Number, other.Uncut
        ∧ beyond.equals other = true ∧ beyond.toRat ≠ other.toRat := by
  intro scaled greatest beyond
  have scaledUncut : scaled.Uncut := by decide +kernel
  have greatestUncut : greatest.Uncut := by decide +kernel
  have cut : ¬ beyond.Uncut := by decide +kernel
  have overflows : scaled.Overflows := ⟨false, by decide +kernel⟩
  have overflowsToo : beyond.Overflows := ⟨false, by decide +kernel⟩
  have exact := (equals_exact_beyond_range (.inl overflows)).1 scaledUncut greatestUncut
  have confused := (@equals_exact_beyond_range beyond greatest (.inl overflowsToo)).2.2
  exact ⟨scaledUncut, greatestUncut, exact.mp (by decide +kernel), overflowsToo, cut,
    confused overflowsToo (by decide +kernel) cut⟩

theorem toRat_power (exponent : Exponent) :
    toRat ⟨false, 1, [], some exponent⟩ = 10 ^ exponent.value := by
  simp [toRat, signed, writtenExponent]

/-- Exponents that leave the range on one side are taken for one another. -/
theorem unequal_beyond_range_confused :
    let left : Number :=
      ⟨false, 1, [], some ⟨false, 9, [2, 2, 3, 3, 7, 2, 0, 3, 6, 8, 5, 4, 7, 7, 5, 8, 0, 8]⟩⟩
    let right : Number :=
      ⟨false, 1, [], some ⟨false, 9, [2, 2, 3, 3, 7, 2, 0, 3, 6, 8, 5, 4, 7, 7, 5, 8, 0, 9]⟩⟩
    parse "1e9223372036854775808" = .ok left ∧ parse "1e9223372036854775809" = .ok right
      ∧ left.Overflows ∧ right.Overflows ∧ left.equals right = true
      ∧ left.toRat ≠ right.toRat := by
  intro left right
  refine ⟨by decide +kernel, by decide +kernel, ⟨false, by decide +kernel⟩,
    ⟨false, by decide +kernel⟩, by decide +kernel, fun same => ?_⟩
  rw [toRat_power, toRat_power] at same
  have powers := zpow_right_injective₀ (by norm_num) (by norm_num) same
  exact absurd powers (by decide +kernel)

end Number

end JsonTree
