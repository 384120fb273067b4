import JsonTree.Number.DecimalText
import JsonTree.Proofs.Number.Saturation
import JsonTree.Proofs.Number.Spelling

/-! The normal form of a text is the one form of its value.

The first letter of a literal begins its exponent and the first point its fraction, so the pieces
into which its text is cut are its parts, and the normal form that is read off the text is that
of the number. While the written exponent and the count of the digits stay below `2 ^ 62`, no sum
leaves the 64-bit range, the normal form has the value of the text, and no other normal form has.
-/

set_option autoImplicit false

namespace JsonTree

section

variable {isMark : Char → Bool} {front : List Char}

theorem cutAtFirst_append (plain : ∀ c ∈ front, isMark c = false) {mark : Char}
    (found : isMark mark = true) (back : List Char) :
    cutAtFirst isMark (front ++ mark :: back) = (front, some back) := by
  have inside : ∀ c ∈ front, (!isMark c) = true := fun c member => by rw [plain c member]; rfl
  rw [cutAtFirst, List.takeWhile_append_of_pos inside, List.dropWhile_append_of_pos inside]
  simp [found]

theorem cutAtFirst_unmarked (plain : ∀ c ∈ front, isMark c = false) :
    cutAtFirst isMark front = (front, none) := by
  have inside : ∀ c ∈ front, (!isMark c) = true := fun c member => by rw [plain c member]; rfl
  rw [cutAtFirst, List.takeWhile_eq_self_iff.mpr inside, List.dropWhile_eq_nil_iff.mpr inside]
  rfl

end

namespace Digit

variable (digits : List Digit)

theorem toChar_injective : Function.Injective toChar := by
  intro first second same
  have read := congrArg ofChar? same
  rw [ofChar?_toChar, ofChar?_toChar] at read
  exact Option.some.inj read

theorem chars_injective : Function.Injective chars := toChar_injective.list_map

theorem chars_append (back : List Digit) : chars (digits ++ back) = chars digits ++ chars back :=
  List.map_append

theorem byteLength_chars : byteLength (chars digits) = digits.length := by
  have small : ∀ digit : Digit, digit.toChar.utf8Size = 1 := by decide
  induction digits with
  | nil => rfl
  | cons digit digits ih =>
    rw [chars, List.map_cons, byteLength_cons, small, List.length_cons, ← ih, Nat.add_comm]
    rfl

theorem toChar_eq_zero (digit : Digit) : (digit.toChar == '0') = (digit.val == 0) := by
  revert digit
  decide

theorem dropWhile_chars :
    (chars digits).dropWhile (· == '0') = chars (Decimal.trimStart digits) := by
  rw [chars, List.dropWhile_map, Decimal.trimStart]
  simp only [Function.comp_def, toChar_eq_zero]
  rfl

theorem eq_zero_of_toChar {found : Option Digit} (zero : found.map toChar = some '0') :
    found = some 0 :=
  Option.map_injective toChar_injective (zero.trans rfl)

end Digit

theorem Decimal.length_trimEnd_le (digits : List Digit) :
    (trimEnd digits).length ≤ digits.length := by
  obtain ⟨count, split⟩ := trimEnd_split digits
  have total := congrArg List.length split
  rw [List.length_append] at total
  omega

namespace Number

variable {number left right : Number} {text first second : List Char} {pieces : Pieces}

theorem readInt64?_spelled {sign : List Char} (exponent : Exponent)
    (spelled : SpelledSign sign exponent.negative) :
    readInt64? (sign ++ Digit.chars exponent.digits)
      = if InInt64 exponent.value then some exponent.value else none := by
  have signed := spelled.scan exponent.first (Digit.chars exponent.more)
  have read := Digit.all?_chars (List.cons_ne_nil exponent.first exponent.more)
  have front : Digit.chars exponent.digits
      = exponent.first.toChar :: Digit.chars exponent.more := rfl
  rw [readInt64?, front, signed]
  simp only [bind, Option.bind]
  rw [← front, Exponent.digits, read]
  rfl

theorem head?_spelled {sign : List Char} (exponent : Exponent)
    (spelled : SpelledSign sign exponent.negative) :
    (sign ++ Digit.chars exponent.digits).head? = some '-' ↔ exponent.negative = true := by
  generalize exponent.negative = negative at spelled
  cases spelled with
  | absent =>
    have other : some exponent.first.toChar ≠ some '-' :=
      fun same => Digit.toChar_ne_minus exponent.first (Option.some.inj same)
    exact iff_of_false other (by decide)
  | plus => exact iff_of_false (by simp) (by decide)
  | minus => exact iff_of_true rfl rfl

theorem readPower_spelled {sign : List Char} (exponent : Exponent)
    (spelled : SpelledSign sign exponent.negative) :
    readPower (sign ++ Digit.chars exponent.digits) = exponent.saturated := by
  rw [readPower, readInt64?_spelled exponent spelled, Exponent.saturated]
  simp only [head?_spelled exponent spelled]
  by_cases inside : InInt64 exponent.value
  · rw [if_pos inside, Option.getD_some]
    exact (if_pos inside).symm
  · rw [if_neg inside, Option.getD_none]
    exact (if_neg inside).symm

inductive SpelledPower : Option (List Char) → Option Exponent → Prop where
  | absent : SpelledPower none none
  | written {sign : List Char} (exponent : Exponent) : SpelledSign sign exponent.negative →
      SpelledPower (some (sign ++ Digit.chars exponent.digits)) (some exponent)

theorem SpelledExponent.cut {power : Option Exponent} (spelled : SpelledExponent text power)
    {mantissa : List Char} (plain : Unmarked mantissa) :
    ∃ written, cutAtFirst isMark (mantissa ++ text) = (mantissa, written)
      ∧ SpelledPower written power := by
  cases spelled with
  | absent =>
    rw [List.append_nil]
    exact ⟨none, cutAtFirst_unmarked plain, .absent⟩
  | @power mark sign negative first more letter signed =>
    exact ⟨_, cutAtFirst_append plain (isMark_iff.mpr letter) _,
      .written ⟨negative, first, more⟩ signed⟩

theorem cut_fractionChars (number : Number) :
    ∃ fraction,
      cutAtFirst (· == '.') (natChars number.whole ++ number.fractionChars)
        = (natChars number.whole, fraction)
      ∧ fraction.getD [] = Digit.chars number.fraction := by
  have plain : ∀ c ∈ natChars number.whole, (c == '.') = false :=
    Digit.forall_mem_chars (by decide) _
  unfold fractionChars
  cases number.fraction with
  | nil =>
    rw [List.append_nil]
    exact ⟨none, cutAtFirst_unmarked plain, rfl⟩
  | cons first more => exact ⟨_, cutAtFirst_append plain rfl _, rfl⟩

namespace Pieces

structure Cut (pieces : Pieces) (number : Number) : Prop where
  negative : pieces.negative = number.negative
  whole : pieces.whole = natChars number.whole
  fraction : pieces.fraction = Digit.chars number.fraction
  power : SpelledPower pieces.power number.exponent

theorem cut_of_spelled (spelled : Spelled text number) : (ofText text).Cut number := by
  cases spelled with
  | @parts whole fraction exponent _ wholeSpelled fractionSpelled exponentSpelled =>
    have mantissa := (unmarked_append.mp (List.append_assoc .. ▸ number.unmarked_mantissa)).2
    obtain ⟨power, powerCut, powerSpelled⟩ := exponentSpelled.cut mantissa
    obtain ⟨behind, pointCut, same⟩ := cut_fractionChars number
    have sign := scanSign_chars (natChars_ne_minus number.whole
      (number.fractionChars ++ exponent)) number
    rw [← List.append_assoc (natChars number.whole)] at sign
    rw [wholeSpelled.eq_natChars, fractionSpelled.eq_fractionChars, List.append_assoc,
      List.append_assoc, ← List.append_assoc (natChars number.whole)]
    simp only [ofText, sign, powerCut, pointCut]
    exact ⟨rfl, rfl, same, powerSpelled⟩

namespace Cut

variable (cut : pieces.Cut number)
include cut

theorem digits : pieces.digits = Digit.chars number.digits := by
  rw [Pieces.digits, cut.whole, cut.fraction, natChars, ← Digit.chars_append]
  rfl

theorem exponent : pieces.exponent = number.saturatedExponent := by
  have power := cut.power
  unfold Pieces.exponent saturatedExponent
  generalize pieces.power = written, number.exponent = power at power
  cases power with
  | absent => rfl
  | written exponent signed => exact readPower_spelled exponent signed

theorem lastPlace :
    pieces.lastPlace = saturate (number.saturatedExponent - number.fraction.length) := by
  rw [Pieces.lastPlace, cut.exponent, cut.fraction, Digit.byteLength_chars]

theorem trimmed : pieces.trimmed = Digit.chars (Decimal.trimEnd number.digits) := by
  have back : (Digit.chars number.digits).reverse = Digit.chars number.digits.reverse :=
    List.map_reverse.symm
  rw [Pieces.trimmed, cut.digits, back, Digit.dropWhile_chars]
  exact List.map_reverse.symm

theorem significant :
    pieces.significant = Digit.chars (Decimal.trimStart (Decimal.trimEnd number.digits)) := by
  rw [Pieces.significant, cut.trimmed, Digit.dropWhile_chars]

theorem trailing : pieces.trailing = number.trailing := by
  rw [Pieces.trailing, cut.digits, cut.trimmed, Digit.byteLength_chars, Digit.byteLength_chars]
  rfl

theorem place : pieces.place = number.countedPlace := by
  rw [Pieces.place, cut.lastPlace, cut.trailing]
  rfl

/-- The normal form that is read off a literal is that of its number. -/
theorem normalForm : pieces.normalForm = number.decimal.text := by
  have decimal : number.decimal = Decimal.normalize number.negative number.digits
      (saturate (number.saturatedExponent - number.fraction.length)) := rfl
  rw [Pieces.normalForm, cut.significant, cut.negative, cut.place, decimal, Decimal.normalize]
  cases Decimal.trimStart (Decimal.trimEnd number.digits) with
  | nil => rfl
  | cons first more => rfl

end Cut

/-- No sum leaves the 64-bit range: not the exponent as it is read, and not the places of the
last digit, of the last digit other than zero and of the leading digit. -/
structure Unsaturated (pieces : Pieces) : Prop where
  read : ∀ written ∈ pieces.power, readInt64? written = some pieces.exponent
  last : InInt64 (pieces.exponent - byteLength pieces.fraction)
  place : InInt64 (pieces.lastPlace + pieces.trailing)
  leading : InInt64 (pieces.place + byteLength pieces.significant)

theorem Cut.unsaturated (cut : pieces.Cut number) (moderate : number.Moderate) :
    pieces.Unsaturated := by
  obtain ⟨lower, upper⟩ := moderate.place_bounds
  have exponent : pieces.exponent = number.writtenExponent :=
    cut.exponent.trans moderate.saturatedExponent
  have last : InInt64 number.place := ⟨lower, by omega⟩
  have lastPlace : pieces.lastPlace = number.place := by
    rw [cut.lastPlace, moderate.saturatedExponent]
    exact last.saturate
  have place : InInt64 (number.place + number.trailing) := by
    have zeros : number.trailing ≤ number.digits.length := Nat.sub_le ..
    exact ⟨by omega, by omega⟩
  -- The place of the last digit is in range, and what is added to it later are digits.
  refine ⟨fun written member => ?_, ?_, ?_, ?_⟩
  · have power := cut.power
    have bound := moderate.exponent
    rw [exponent]
    unfold writtenExponent at bound ⊢
    rw [Option.mem_def.mp member] at power
    generalize number.exponent = exponent at power bound
    cases power with
    | written exponent signed =>
      dsimp only at bound
      have inside : InInt64 exponent.value := by
        unfold InInt64 leastInt64 greatestInt64
        omega
      rw [readInt64?_spelled exponent signed, if_pos inside]
  · rw [exponent, cut.fraction, Digit.byteLength_chars]
    exact last
  · rw [lastPlace, cut.trailing]
    exact place
  · have trimmed := Decimal.length_trimEnd_le number.digits
    have kept : (Decimal.trimStart (Decimal.trimEnd number.digits)).length
        ≤ (Decimal.trimEnd number.digits).length := (List.dropWhile_sublist _).length_le
    rw [Pieces.place, lastPlace, cut.trailing, place.saturate, cut.significant,
      Digit.byteLength_chars]
    unfold Number.trailing
    exact ⟨by omega, by omega⟩

end Pieces

end Number

/-- The form that only one value has: no zero stands at either end of the digits, and of zero no
digit is left and no sign. -/
structure DecimalText.Reduced (form : DecimalText) (value : ℚ) : Prop where
  denotes : ∃ digits, form.digits = Digit.chars digits
    ∧ signed form.negative (Digit.value digits * 10 ^ form.exponent) = value
  leading : form.digits.head? ≠ some '0'
  trailing : form.digits.getLast? ≠ some '0'
  zero : value = 0 ↔ form = ⟨false, [], 0⟩

namespace Decimal

theorem text_injective : Function.Injective text := by
  intro first second same
  obtain ⟨signs, digits, exponents⟩ := DecimalText.mk.inj same
  cases first
  cases second
  dsimp only at signs digits exponents
  rw [signs, Digit.chars_injective digits, exponents]

theorem Normal.reduced {decimal : Decimal} (normal : decimal.Normal) :
    decimal.text.Reduced decimal.toRat where
  denotes := ⟨decimal.digits, rfl, rfl⟩
  leading front := by
    have first := Digit.eq_zero_of_toChar (List.head?_map.symm.trans front)
    exact normal.trimmed.leading 0 first rfl
  trailing back := by
    have last := Digit.eq_zero_of_toChar (List.getLast?_map.symm.trans back)
    exact normal.trimmed.trailing 0 last rfl
  zero := normal.eq_zero_iff.symm.trans text_injective.eq_iff.symm

end Decimal

namespace Number

variable {left right : Number} {first second : List Char}

/-- The normal form that is read off a literal is that of its number. It is the one form of the
value that the literal has by its parts, and on the way to it nothing is cut off, so two literals
have one value just when sign, digits and exponent are the same. -/
theorem texts_normalized (firstSpelled : Spelled first left) (secondSpelled : Spelled second right)
    (leftModerate : left.Moderate) (rightModerate : right.Moderate) :
    DecimalText.ofText first = left.decimal.text
      ∧ (DecimalText.ofText first).Reduced left.toRat
      ∧ (Pieces.ofText first).Unsaturated
      ∧ (left.toRat = right.toRat ↔ DecimalText.ofText first = DecimalText.ofText second) := by
  have firstCut := Pieces.cut_of_spelled firstSpelled
  have firstForm : DecimalText.ofText first = left.decimal.text := firstCut.normalForm
  have secondForm : DecimalText.ofText second = right.decimal.text :=
    (Pieces.cut_of_spelled secondSpelled).normalForm
  rw [firstForm, secondForm]
  refine ⟨rfl, ?_, firstCut.unsaturated leftModerate, ?_⟩
  · rw [← leftModerate.toRat_decimal]
    exact left.decimal_normal.reduced
  · rw [Decimal.text_injective.eq_iff]
    exact (leftModerate.decimal_eq_iff rightModerate).symm

theorem texts_normalized_spellings :
    let scaled : Number := ⟨true, 100, [0, 0], some ⟨true, 0, [3]⟩⟩
    let plain : Number := ⟨true, 0, [1], none⟩
    let zero : Number := ⟨true, 0, [0, 0, 0], some ⟨false, 1, [0]⟩⟩
    Spelled "-100.00E-03".toList scaled ∧ Spelled "-0.1".toList plain
      ∧ Spelled "-0.000e10".toList zero
      ∧ scaled.Moderate ∧ plain.Moderate ∧ zero.Moderate
      ∧ DecimalText.ofText "-100.00E-03".toList = ⟨true, ['1'], -1⟩
      ∧ (Pieces.ofText "-100.00E-03".toList).Unsaturated
      ∧ scaled.toRat = plain.toRat ∧ zero.toRat = 0 ∧ zero.toRat ≠ plain.toRat := by
  intro scaled plain zero
  have scaledSpelled : Spelled "-100.00E-03".toList scaled := read?_eq_some_iff.mp (by decide)
  have plainSpelled : Spelled "-0.1".toList plain := read?_eq_some_iff.mp (by decide)
  have zeroSpelled : Spelled "-0.000e10".toList zero := read?_eq_some_iff.mp (by decide)
  have scaledModerate : scaled.Moderate := by decide +kernel
  have plainModerate : plain.Moderate := by decide +kernel
  have zeroModerate : zero.Moderate := by decide +kernel
  obtain ⟨-, -, unsaturated, same⟩ :=
    texts_normalized scaledSpelled plainSpelled scaledModerate plainModerate
  obtain ⟨-, reduced, -, other⟩ :=
    texts_normalized zeroSpelled plainSpelled zeroModerate plainModerate
  exact ⟨scaledSpelled, plainSpelled, zeroSpelled, scaledModerate, plainModerate, zeroModerate,
    by decide +kernel, unsaturated, same.mpr (by decide +kernel),
    reduced.zero.mpr (by decide +kernel), fun equal => absurd (other.mp equal) (by decide +kernel)⟩

end Number

end JsonTree
