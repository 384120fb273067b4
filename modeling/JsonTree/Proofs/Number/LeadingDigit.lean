import JsonTree.Proofs.Number.Integers

/-! The order of numbers of which exponents are cut off.

The order ranks numbers by the places of their leading digits, as the normal forms count them,
and then by their digits. So it is the exact order of other numbers, which have their leading
digits where they are counted. This makes it a total preorder, whatever is cut off and whichever
of its two ways decides. It is the order of the values unless two numbers of one sign are both so
large, or both so small, that a cut can take one leading digit past the other.
-/

set_option autoImplicit false

namespace JsonTree

theorem signed_mul (negative : Bool) (size factor : ℚ) :
    signed negative size * factor = signed negative (size * factor) := by
  cases negative
  · rfl
  · exact neg_mul size factor

namespace Number

variable {number left right : Number}

/-- The place of the leading digit: unless the number is zero, its size is below `10 ^ lead`, and
a tenth of that at least. -/
def lead (number : Number) : Int :=
  number.place + number.trailing + number.decimal.digits.length

def shift (number : Number) : Int := number.decimal.magnitude - number.lead

/-- The number that the order takes a number for. -/
def counted (number : Number) : ℚ := number.toRat * 10 ^ number.shift

theorem toRat_eq_placed (number : Number) : number.toRat = number.decimal.placed number.lead := by
  rw [toRat_significant, value_scaled_eq_share]
  rfl

theorem counted_eq_placed (number : Number) :
    number.counted = number.decimal.placed number.decimal.magnitude := by
  rw [counted, toRat_eq_placed, Decimal.placed, signed_mul, mul_assoc,
    ← zpow_add₀ (by norm_num), shift, add_sub_cancel]
  rfl

/-- The order of any two numbers is the exact one of the numbers that they are taken for. -/
theorem compares_counted (left right : Number) :
    (left.order right).Compares left.counted right.counted := by
  rw [order_eq_compare_decimal, counted_eq_placed, counted_eq_placed]
  exact Decimal.compares_placed left.decimal_normal right.decimal_normal fun _ _ => rfl

theorem order_eq_compare_counted (left right : Number) :
    left.order right = compare left.counted right.counted :=
  ((compare_iff _ _).mpr (compares_counted left right)).symm

theorem order_swap (left right : Number) : right.order left = (left.order right).swap := by
  rw [order_eq_compare_counted, order_eq_compare_counted left]
  exact Std.OrientedOrd.eq_swap

/-- Where the leading digits are counted in the order of their places, the order is exact. -/
theorem compares_of_ranked
    (ranked : Decimal.Ranked left.decimal right.decimal left.lead right.lead) :
    (left.order right).Compares left.toRat right.toRat := by
  rw [order_eq_compare_decimal, toRat_eq_placed left, toRat_eq_placed right]
  exact Decimal.compares_placed left.decimal_normal right.decimal_normal ranked

/-- The order is a total preorder of all numbers, with exponents of any length. It does not matter
for which pairs both numbers are read as integers: all pairs are ordered as normal forms are. -/
theorem order_total_preorder (first second third : Number) :
    first.order first = .eq
      ∧ second.order first = (first.order second).swap
      ∧ (first.order second ≠ .gt → second.order third ≠ .gt → first.order third ≠ .gt)
      ∧ first.order second = compare first.decimal second.decimal := by
  refine ⟨?_, order_swap first second, ?_, order_eq_compare_decimal first second⟩
  · rw [order_eq_compare_counted]
    exact compare_eq_iff_eq.mpr rfl
  · rw [order_eq_compare_counted, order_eq_compare_counted, order_eq_compare_counted,
      compare_le_iff_le, compare_le_iff_le, compare_le_iff_le]
    exact le_trans

/-- Two integers, one from either 64-bit range, and a fraction between them. -/
theorem order_total_preorder_mixed :
    let first : Number := .ofInt 9223372036854775807
    let second : Number := ⟨false, 9223372036854775807, [5], none⟩
    let third : Number := .ofInt 9223372036854775808
    first.wideInteger? = some 9223372036854775807 ∧ second.wideInteger? = none
      ∧ third.wideInteger? = some 9223372036854775808
      ∧ first.order second ≠ .gt ∧ second.order third ≠ .gt ∧ first.order third ≠ .gt := by
  intro first second third
  have below : first.order second ≠ .gt := by decide +kernel
  have above : second.order third ≠ .gt := by decide +kernel
  exact ⟨by decide +kernel, by decide +kernel, by decide +kernel, below, above,
    (order_total_preorder first second third).2.2.1 below above⟩

/-- No exponent is cut off: the one that is written and the places of all digits are in the
64-bit range. -/
structure Held (number : Number) : Prop where
  written : InInt64 number.writtenExponent
  last : leastInt64 ≤ number.place
  first : number.lead ≤ greatestInt64

/-- Within these bounds on both sides no cut takes one leading digit past another. -/
def reach (left right : Number) : Int :=
  0x4000000000000000 - left.digits.length - right.digits.length

structure InReach (left right : Number) : Prop where
  short : 0 < reach left right
  large : left.lead < reach left right ∨ right.lead < reach left right
  small : -reach left right < left.lead ∨ -reach left right < right.lead

theorem length_significant (number : Number) :
    number.decimal.digits.length + number.trailing ≤ number.digits.length := by
  rcases number.decimal_form with ⟨-, form⟩ | ⟨significant, nonempty, trimmed, value, form⟩
  · rw [form]
    exact (Nat.zero_add _).trans_le (Nat.sub_le ..)
  · rw [form]
    refine (Digit.value_mul_lt_iff nonempty trimmed.leading number.trailing _).mp ?_
    rw [← value]
    exact Digit.value_lt number.digits

theorem magnitude_decimal (nonzero : number.decimal.isZero = false) :
    number.decimal.magnitude
      = saturate (number.countedPlace + number.decimal.digits.length) := by
  rcases number.decimal_form with ⟨-, form⟩ | ⟨significant, -, -, -, form⟩
  · rw [form] at nonzero
    contradiction
  · rw [form]
    rfl

theorem Held.magnitude_eq (held : number.Held) (nonzero : number.decimal.isZero = false) :
    number.decimal.magnitude = number.lead := by
  obtain ⟨written, last, first⟩ := held
  have exponent := number.saturatedExponent_cases
  rw [magnitude_decimal nonzero, countedPlace]
  unfold lead place at *
  unfold InInt64 saturate leastInt64 greatestInt64 at *
  omega

/-- A leading digit that is not counted at its place stands far out and is counted far out, on
the same side. -/
theorem magnitude_cases (nonzero : number.decimal.isZero = false) (bound : Int)
    (positive : 0 < bound) (short : bound + number.digits.length ≤ 0x4000000000000000) :
    number.decimal.magnitude = number.lead
      ∨ bound ≤ number.lead ∧ bound ≤ number.decimal.magnitude
      ∨ number.lead ≤ -bound ∧ number.decimal.magnitude ≤ -bound := by
  have exponent := number.saturatedExponent_cases
  have fraction := number.length_digits
  have significant := number.length_significant
  rw [magnitude_decimal nonzero, countedPlace]
  unfold lead place
  unfold InInt64 saturate leastInt64 greatestInt64 at *
  omega

theorem InReach.ranked (inReach : left.InReach right) :
    Decimal.Ranked left.decimal right.decimal left.lead right.lead := by
  intro leftNonzero rightNonzero
  obtain ⟨short, large, small⟩ := inReach
  have leftCases := magnitude_cases leftNonzero (reach left right) short (by unfold reach; omega)
  have rightCases := magnitude_cases rightNonzero (reach left right) short
    (by unfold reach; omega)
  refine (compare_iff _ _).mpr ?_
  cases order : compare left.decimal.magnitude right.decimal.magnitude with
  | lt =>
    have less := compare_lt_iff_lt.mp order
    show left.lead < right.lead
    omega
  | eq =>
    have same := compare_eq_iff_eq.mp order
    show left.lead = right.lead
    omega
  | gt =>
    have greater := compare_gt_iff_gt.mp order
    show right.lead < left.lead
    omega

theorem Held.ranked (leftHeld : left.Held) (rightHeld : right.Held) :
    Decimal.Ranked left.decimal right.decimal left.lead right.lead := by
  intro leftNonzero rightNonzero
  rw [leftHeld.magnitude_eq leftNonzero, rightHeld.magnitude_eq rightNonzero]

theorem order_eq_lt_of_ranked (less : left.toRat < right.toRat)
    (ranked : Decimal.Ranked left.decimal right.decimal left.lead right.lead) :
    left.order right = .lt := by
  rw [← (compare_iff _ _).mpr (compares_of_ranked ranked)]
  exact compare_lt_iff_lt.mpr less

theorem order_eq_lt_of_signs (less : left.toRat < right.toRat) (leftSign : left.toRat ≤ 0)
    (rightSign : 0 ≤ right.toRat) : left.order right = .lt := by
  have leftPower : (0 : ℚ) < 10 ^ left.shift := by positivity
  have rightPower : (0 : ℚ) < 10 ^ right.shift := by positivity
  rw [order_eq_compare_counted, compare_lt_iff_lt, counted, counted]
  rcases leftSign.lt_or_eq with negative | zero
  · have below := mul_neg_of_neg_of_pos negative leftPower
    have above := mul_nonneg rightSign rightPower.le
    linarith
  · rw [zero] at less ⊢
    rw [zero_mul]
    exact mul_pos less rightPower

/-- A lesser number comes behind a greater one just when cuts have taken it past the other. They
never do between numbers of different signs, or where no exponent is cut off, or where not both
numbers are out of reach on one side. -/
theorem order_inverted_iff (less : left.toRat < right.toRat) :
    (left.order right = .gt ↔ right.counted < left.counted)
      ∧ (right.order left = .lt ↔ right.counted < left.counted)
      ∧ (left.toRat ≤ 0 ∧ 0 ≤ right.toRat ∨ left.Held ∧ right.Held ∨ left.InReach right →
        left.order right = .lt ∧ right.order left = .gt) := by
  refine ⟨?_, ?_, fun settled => ?_⟩
  · rw [order_eq_compare_counted, compare_gt_iff_gt]
  · rw [order_eq_compare_counted, compare_lt_iff_lt]
  · have kept : left.order right = .lt := by
      rcases settled with ⟨leftSign, rightSign⟩ | ⟨leftHeld, rightHeld⟩ | inReach
      · exact order_eq_lt_of_signs less leftSign rightSign
      · exact order_eq_lt_of_ranked less (leftHeld.ranked rightHeld)
      · exact order_eq_lt_of_ranked less inReach.ranked
    exact ⟨kept, by rw [order_swap left right, kept]; rfl⟩

theorem order_inverted_iff_seam :
    let kept : Number :=
      ⟨false, 1, [], some ⟨false, 4, [0, 0, 0, 0, 0, 0, 0, 0, 0, 0, 0, 0, 0, 0, 0, 0, 0, 0]⟩⟩
    let cut : Number :=
      ⟨false, 1, [], some ⟨false, 9, [2, 2, 3, 3, 7, 2, 0, 3, 6, 8, 5, 4, 7, 7, 5, 8, 0, 8]⟩⟩
    kept.toRat < cut.toRat ∧ kept.Held ∧ ¬ cut.Held ∧ kept.InReach cut
      ∧ kept.order cut = .lt ∧ cut.order kept = .gt := by
  intro kept cut
  have less : kept.toRat < cut.toRat := by
    rw [toRat_power, toRat_power]
    exact zpow_lt_zpow_right₀ (by norm_num) (by decide +kernel)
  have held : kept.Held := ⟨by decide +kernel, by decide +kernel, by decide +kernel⟩
  have notHeld : ¬ cut.Held := fun held => absurd held.written (by decide +kernel)
  have inReach : kept.InReach cut :=
    ⟨by decide +kernel, .inl (by decide +kernel), .inl (by decide +kernel)⟩
  exact ⟨less, held, notHeld, inReach, (order_inverted_iff less).2.2 (.inr (.inr inReach))⟩

/-- The first exponent that is cut off counts as half of the last one that is not. -/
theorem order_inverted :
    let lesser : Number :=
      ⟨false, 1, [], some ⟨false, 9, [2, 2, 3, 3, 7, 2, 0, 3, 6, 8, 5, 4, 7, 7, 5, 8, 0, 7]⟩⟩
    let greater : Number :=
      ⟨false, 1, [], some ⟨false, 9, [2, 2, 3, 3, 7, 2, 0, 3, 6, 8, 5, 4, 7, 7, 5, 8, 0, 8]⟩⟩
    parse "1e9223372036854775807" = .ok lesser ∧ parse "1e9223372036854775808" = .ok greater
      ∧ lesser.toRat < greater.toRat ∧ lesser.order greater = .gt := by
  intro lesser greater
  refine ⟨by decide +kernel, by decide +kernel, ?_, by decide +kernel⟩
  rw [toRat_power, toRat_power]
  exact zpow_lt_zpow_right₀ (by norm_num) (by decide +kernel)

end Number

end JsonTree
