import JsonTree.Number.Compare
import JsonTree.Proofs.Number.Grammar
import JsonTree.Proofs.Number.Rational
import Mathlib.Order.Compare

/-! The order of numbers is that of the rational numbers that they denote.

Between normal forms of one magnitude the digits decide, read behind a point: there no
zero at the end hides a difference, so digit strings compare like words. Between different
magnitudes the leading digit decides alone. So all that matters of the places at which the
leading digits stand is that the magnitudes are in their order.
-/

set_option autoImplicit false

namespace JsonTree

/-- The value of the digits behind a point. -/
def share (digits : List Digit) : ℚ := Digit.value digits / 10 ^ digits.length

@[simp] theorem share_nil : share [] = 0 := by simp [share]

theorem share_cons (first : Digit) (more : List Digit) :
    share (first :: more) = (first.val + share more) / 10 := by
  rw [share, share, Digit.value_cons, List.length_cons, pow_succ']
  push_cast
  rw [cast_tenTo]
  field_simp

theorem share_nonneg (digits : List Digit) : 0 ≤ share digits := by
  unfold share
  positivity

theorem share_lt_one (digits : List Digit) : share digits < 1 := by
  have bound : (Digit.value digits : ℚ) < 10 ^ digits.length := by
    rw [← cast_tenTo]
    exact_mod_cast Digit.value_lt digits
  exact (div_lt_one (by positivity)).mpr bound

theorem share_pos {digits : List Digit} (nonempty : digits ≠ [])
    (trailing : ∀ last ∈ digits.getLast?, last ≠ 0) : 0 < share digits := by
  have last := trailing _ (List.getLast?_eq_getLast_of_ne_nil nonempty)
  have positive : 0 < Digit.value digits := by
    rw [← List.dropLast_append_getLast nonempty, Digit.value_append_singleton]
    have := Nat.pos_of_ne_zero fun zero => last (Fin.ext zero)
    omega
  unfold share
  positivity

theorem tenth_le_share {digits : List Digit} (nonempty : digits ≠ [])
    (leading : ∀ first ∈ digits.head?, first ≠ 0) : 1 / 10 ≤ share digits := by
  obtain ⟨first, more, rfl⟩ := List.exists_cons_of_ne_nil nonempty
  have least : (1 : ℚ) ≤ first.val := by
    exact_mod_cast Nat.one_le_iff_ne_zero.mpr fun zero => leading first rfl (Fin.ext zero)
  have := share_nonneg more
  rw [share_cons]
  linarith

/-- A leading digit at a higher place outweighs all digits from a lower place on. -/
theorem share_scaled_lt (left : List Digit) {right : List Digit} (nonempty : right ≠ [])
    (leading : ∀ first ∈ right.head?, first ≠ 0) {low high : Int} (less : low < high) :
    share left * 10 ^ low < share right * 10 ^ high := by
  have upper := share_lt_one left
  have lower := tenth_le_share nonempty leading
  have step : (10 : ℚ) ^ low ≤ 10 ^ high / 10 := by
    rw [div_eq_mul_inv, ← zpow_sub_one₀ (by norm_num)]
    exact zpow_le_zpow_right₀ (by norm_num) (by omega)
  calc share left * 10 ^ low
      < 1 * 10 ^ low := mul_lt_mul_of_pos_right upper (by positivity)
    _ ≤ 10 ^ high / 10 := by rwa [one_mul]
    _ = 1 / 10 * 10 ^ high := by ring
    _ ≤ share right * 10 ^ high := mul_le_mul_of_nonneg_right lower (by positivity)

theorem leading_place_eq {left right : List Digit} (leftNonempty : left ≠ [])
    (rightNonempty : right ≠ []) (leftLeading : ∀ first ∈ left.head?, first ≠ 0)
    (rightLeading : ∀ first ∈ right.head?, first ≠ 0) {leftPlace rightPlace : Int}
    (same : share left * 10 ^ leftPlace = share right * 10 ^ rightPlace) :
    leftPlace = rightPlace := by
  rcases lt_trichotomy leftPlace rightPlace with less | equal | greater
  · exact absurd same (share_scaled_lt left rightNonempty rightLeading less).ne
  · exact equal
  · exact absurd same (share_scaled_lt right leftNonempty leftLeading greater).ne'

theorem trailing_tail {first : Digit} {more : List Digit}
    (trailing : ∀ last ∈ (first :: more).getLast?, last ≠ 0) :
    ∀ last ∈ more.getLast?, last ≠ 0 := by
  intro last back
  refine trailing last ?_
  rw [List.getLast?_cons, Option.mem_def.mp back]
  rfl

/-- Digit strings without zeros at the end compare like their values behind a point. -/
theorem compares_share {left right : List Digit} (leftTrailing : ∀ last ∈ left.getLast?, last ≠ 0)
    (rightTrailing : ∀ last ∈ right.getLast?, last ≠ 0) :
    (compare left right).Compares (share left) (share right) := by
  induction left generalizing right with
  | nil =>
    cases right with
    | nil => exact rfl
    | cons y ys =>
      rw [List.compare_nil_cons, share_nil]
      exact share_pos (List.cons_ne_nil y ys) rightTrailing
  | cons x xs ih =>
    cases right with
    | nil =>
      rw [List.compare_cons_nil, share_nil]
      exact share_pos (List.cons_ne_nil x xs) leftTrailing
    | cons y ys =>
      have leftLower := share_nonneg xs
      have leftUpper := share_lt_one xs
      have rightLower := share_nonneg ys
      have rightUpper := share_lt_one ys
      rw [List.compare_cons_cons, share_cons, share_cons]
      -- What follows the first digit is worth less than one more of it.
      cases order : compare x y with
      | lt =>
        have less : (x.val : ℚ) + 1 ≤ y.val := by
          exact_mod_cast Nat.succ_le_of_lt (compare_lt_iff_lt.mp order)
        show (_ : ℚ) < _
        linarith
      | eq =>
        obtain rfl := compare_eq_iff_eq.mp order
        have behind : StrictMono fun rest : ℚ => (x.val + rest) / 10 := by
          intro first second less
          dsimp only
          linarith
        exact behind.compares.mpr (ih (trailing_tail leftTrailing) (trailing_tail rightTrailing))
      | gt =>
        have less : (y.val : ℚ) + 1 ≤ x.val := by
          exact_mod_cast Nat.succ_le_of_lt (compare_gt_iff_gt.mp order)
        show (_ : ℚ) < _
        linarith

theorem value_scaled_eq_share (digits : List Digit) (exponent : Int) :
    (Digit.value digits : ℚ) * 10 ^ exponent
      = share digits * 10 ^ (exponent + digits.length) := by
  rw [share, zpow_add₀ (by norm_num), zpow_natCast]
  field_simp

namespace Decimal

variable {left right : Decimal} {leftPlace rightPlace : Int}

/-- The value of the digits when the leading one stands at some place: its size is below
`10 ^ place`, and a tenth of that at least unless it is zero. -/
def placed (decimal : Decimal) (place : Int) : ℚ :=
  signed decimal.negative (share decimal.digits * 10 ^ place)

theorem toRat_eq_placed (decimal : Decimal) :
    decimal.toRat = decimal.placed (decimal.exponent + decimal.digits.length) := by
  rw [toRat, size, value_scaled_eq_share, placed]

theorem Normal.size_pos {decimal : Decimal} (normal : decimal.Normal)
    (nonzero : decimal.isZero = false) : 0 < decimal.size := by
  have positive := normal.trimmed.value_pos (List.isEmpty_eq_false_iff.mp nonzero)
  unfold size
  positivity

theorem size_nonneg (decimal : Decimal) : 0 ≤ decimal.size := by
  unfold size
  positivity

theorem share_of_isZero {decimal : Decimal} (zero : decimal.isZero = true) :
    share decimal.digits = 0 := by
  rw [List.isEmpty_iff.mp zero, share_nil]

theorem Normal.share_pos {decimal : Decimal} (normal : decimal.Normal)
    (nonzero : decimal.isZero = false) : 0 < share decimal.digits :=
  JsonTree.share_pos (List.isEmpty_eq_false_iff.mp nonzero) normal.trimmed.trailing

/-- Two places that stand to one another as the magnitudes do. Zero has no magnitude of its
own. -/
def Ranked (left right : Decimal) (leftPlace rightPlace : Int) : Prop :=
  left.isZero = false → right.isZero = false →
    compare leftPlace rightPlace = compare left.magnitude right.magnitude

theorem Ranked.swap (ranked : Ranked left right leftPlace rightPlace) :
    Ranked right left rightPlace leftPlace := by
  intro rightNonzero leftNonzero
  rw [Std.OrientedOrd.eq_swap, ranked leftNonzero rightNonzero, ← Std.OrientedOrd.eq_swap]

theorem compares_share_placed (leftNormal : left.Normal) (rightNormal : right.Normal)
    (ranked : Ranked left right leftPlace rightPlace) :
    (left.compareAbs right).Compares (share left.digits * 10 ^ leftPlace)
      (share right.digits * 10 ^ rightPlace) := by
  unfold compareAbs
  cases leftZero : left.isZero with
  | true =>
    rw [share_of_isZero leftZero, zero_mul]
    cases rightZero : right.isZero with
    | true =>
      rw [share_of_isZero rightZero, zero_mul]
      exact rfl
    | false => exact mul_pos (rightNormal.share_pos rightZero) (by positivity)
  | false =>
    cases rightZero : right.isZero with
    | true =>
      rw [share_of_isZero rightZero, zero_mul]
      exact mul_pos (leftNormal.share_pos leftZero) (by positivity)
    | false =>
      rw [← ranked leftZero rightZero]
      -- At different places the place decides, as a share is at least a tenth; at one place the
      -- digits do.
      cases order : compare leftPlace rightPlace with
      | lt =>
        exact share_scaled_lt left.digits (List.isEmpty_eq_false_iff.mp rightZero)
          rightNormal.trimmed.leading (compare_lt_iff_lt.mp order)
      | eq =>
        have scaled : StrictMono fun part : ℚ => part * 10 ^ rightPlace :=
          fun _ _ less => mul_lt_mul_of_pos_right less (by positivity)
        rw [compare_eq_iff_eq.mp order]
        exact scaled.compares.mpr
          (compares_share leftNormal.trimmed.trailing rightNormal.trimmed.trailing)
      | gt =>
        exact share_scaled_lt right.digits (List.isEmpty_eq_false_iff.mp leftZero)
          leftNormal.trimmed.leading (compare_gt_iff_gt.mp order)

theorem Normal.isZero_of_negative {decimal : Decimal} (normal : decimal.Normal)
    (negative : decimal.negative = true) : decimal.isZero = false := by
  refine List.isEmpty_eq_false_iff.mpr fun empty => ?_
  rw [normal.zero empty] at negative
  contradiction

/-- The order of normal forms is that of the numbers which have their leading digits at some
places, whatever these are, as long as they rank as the magnitudes do. -/
theorem compares_placed (leftNormal : left.Normal) (rightNormal : right.Normal)
    (ranked : Ranked left right leftPlace rightPlace) :
    (compare left right).Compares (left.placed leftPlace) (right.placed rightPlace) := by
  have leftSize : 0 ≤ share left.digits * 10 ^ leftPlace :=
    mul_nonneg (share_nonneg _) (by positivity)
  have rightSize : 0 ≤ share right.digits * 10 ^ rightPlace :=
    mul_nonneg (share_nonneg _) (by positivity)
  unfold placed signed
  cases leftSign : left.negative <;> cases rightSign : right.negative <;>
    simp only [compare, leftSign, rightSign, if_true, Bool.false_eq_true, if_false]
  · exact compares_share_placed leftNormal rightNormal ranked
  · have := mul_pos (rightNormal.share_pos (rightNormal.isZero_of_negative rightSign))
      (by positivity : (0 : ℚ) < 10 ^ rightPlace)
    show (_ : ℚ) < _
    linarith
  · have := mul_pos (leftNormal.share_pos (leftNormal.isZero_of_negative leftSign))
      (by positivity : (0 : ℚ) < 10 ^ leftPlace)
    show (_ : ℚ) < _
    linarith
  -- Among negative numbers the greater size is the lesser number.
  · have mirrored : StrictAnti fun size : ℚ => -size := fun _ _ less => neg_lt_neg less
    exact mirrored.compares.mpr (compares_share_placed rightNormal leftNormal ranked.swap)

theorem compares_toRat (leftCanonical : left.Canonical) (rightCanonical : right.Canonical) :
    (compare left right).Compares left.toRat right.toRat := by
  rw [toRat_eq_placed, toRat_eq_placed]
  refine compares_placed leftCanonical.normal rightCanonical.normal fun _ _ => ?_
  rw [leftCanonical.exact, rightCanonical.exact]

end Decimal

namespace Number

variable {left right : Number}

theorem length_ofNat_le {whole count : Nat} (bound : whole < tenTo (count + 1)) :
    (Digit.ofNat whole).length ≤ count + 1 := by
  cases written : Digit.ofNat whole with
  | nil => simp
  | cons first more =>
    have value := Digit.value_ofNat whole
    rw [written] at value
    by_cases zero : first = 0
    · simp [Digit.leading_ofNat written (congrArg Fin.val zero)]
    · have reached := Digit.le_value zero more
      have below : tenTo more.length < tenTo (count + 1) :=
        Nat.lt_of_le_of_lt (value ▸ reached) bound
      have short := (Nat.pow_lt_pow_iff_right (by decide)).mp below
      rw [List.length_cons]
      omega

theorem moderate_of_wideInteger? {number : Number} {value : Int}
    (read : number.wideInteger? = some value) : number.Moderate := by
  obtain ⟨integer, bound⟩ := integer?_of_wideInteger? read
  obtain ⟨noFraction, noExponent, rfl⟩ := parts_of_integer? integer
  have whole : number.whole < tenTo (19 + 1) := by
    show number.whole < 100000000000000000000
    unfold greatestUInt64 at bound
    split at bound <;> omega
  have short := length_ofNat_le whole
  refine ⟨?_, ?_⟩
  · rw [writtenExponent, noExponent]
    decide +kernel
  · rw [digits, noFraction, List.append_nil]
    omega

theorem Moderate.compares_decimal (leftModerate : left.Moderate)
    (rightModerate : right.Moderate) :
    (compare left.decimal right.decimal).Compares left.toRat right.toRat := by
  rw [← leftModerate.toRat_decimal, ← rightModerate.toRat_decimal]
  exact Decimal.compares_toRat leftModerate.decimal_canonical rightModerate.decimal_canonical

/-- Integers of 64 bits are ordered as their normal forms are, so these decide the order of
any two numbers. -/
theorem order_eq_compare_decimal (left right : Number) :
    left.order right = compare left.decimal right.decimal := by
  unfold order
  split
  · next first second leftRead rightRead =>
    have integers : (compare first second).Compares left.toRat right.toRat := by
      rw [wideInteger?_toRat leftRead, wideInteger?_toRat rightRead]
      exact Int.cast_strictMono.compares.mpr ((compare_iff first second).mp rfl)
    have decimals := (moderate_of_wideInteger? leftRead).compares_decimal
      (moderate_of_wideInteger? rightRead)
    exact ((compare_iff _ _).mpr integers).symm.trans ((compare_iff _ _).mpr decimals)
  · rfl

theorem Moderate.compares_toRat (leftModerate : left.Moderate) (rightModerate : right.Moderate) :
    (left.order right).Compares left.toRat right.toRat := by
  rw [order_eq_compare_decimal]
  exact leftModerate.compares_decimal rightModerate

/-- A text is read as a number, on its own or in front of the rest of a document. -/
def Reads (text : List Char) (number : Number) : Prop :=
  ∃ rest, scan (text ++ rest) = some (number, rest)

theorem reads_of_parse {text : String} {number : Number} (read : parse text = .ok number) :
    Reads text.toList number :=
  ⟨[], (parse_eq_ok_iff.mp read).scan endsNumber_nil⟩

theorem Reads.spelled {text : List Char} {number : Number} (read : Reads text number) :
    Spelled text number := by
  obtain ⟨rest, scanned⟩ := read
  obtain ⟨written, spelled, split⟩ := spelled_of_scan scanned
  exact List.append_cancel_right split ▸ spelled

/-- The order of two texts is that of the rational numbers which their parts denote,
however they are spelled. -/
theorem order_exact {first second : List Char} (firstRead : Reads first left)
    (secondRead : Reads second right) (leftModerate : left.Moderate)
    (rightModerate : right.Moderate) :
    Spelled first left ∧ Spelled second right
      ∧ left.order right = compare left.toRat right.toRat :=
  ⟨firstRead.spelled, secondRead.spelled,
    ((compare_iff _ _).mpr (leftModerate.compares_toRat rightModerate)).symm⟩

theorem order_exact_spellings :
    let left : Number := ⟨true, 12, [3, 0], some ⟨false, 1, []⟩⟩
    let right : Number := ⟨true, 0, [0, 1, 2, 2, 9, 9], some ⟨false, 0, [4]⟩⟩
    parse "-12.30e1" = .ok left
      ∧ scan "-0.012299E+04, 1]".toList = some (right, ", 1]".toList)
      ∧ left.Moderate ∧ right.Moderate
      ∧ left.order right = compare left.toRat right.toRat ∧ left.order right = .lt := by
  intro left right
  have alone : parse "-12.30e1" = .ok left := by decide +kernel
  have inside : scan "-0.012299E+04, 1]".toList = some (right, ", 1]".toList) := by decide +kernel
  have leftModerate : left.Moderate := by decide +kernel
  have rightModerate : right.Moderate := by decide +kernel
  have second : Reads "-0.012299E+04".toList right := ⟨", 1]".toList, inside⟩
  have exact := order_exact (reads_of_parse alone) second leftModerate rightModerate
  exact ⟨alone, inside, leftModerate, rightModerate, exact.2.2, by decide +kernel⟩

end Number

end JsonTree
