import JsonTree.Proofs.Number.Grammar
import JsonTree.Proofs.Related
import Mathlib.Computability.RegularExpressions

/-! The literals of the grammar as a regular expression,
`-? (0 | [1-9][0-9]*) (. [0-9]+)? ([eE] [+-]? [0-9]+)?`. -/

set_option autoImplicit false

namespace JsonTree.Number.Expression

open RegularExpression

def oneOf (chars : List Char) : RegularExpression Char := (chars.map char).sum

def optional (part : RegularExpression Char) : RegularExpression Char := 1 + part

def digit : RegularExpression Char := oneOf ['0', '1', '2', '3', '4', '5', '6', '7', '8', '9']

def leadingDigit : RegularExpression Char := oneOf ['1', '2', '3', '4', '5', '6', '7', '8', '9']

def digits : RegularExpression Char := digit * star digit

def whole : RegularExpression Char := char '0' + leadingDigit * star digit

def fraction : RegularExpression Char := optional (char '.' * digits)

def exponent : RegularExpression Char :=
  optional (oneOf ['e', 'E'] * (optional (oneOf ['+', '-']) * digits))

def literal : RegularExpression Char := optional (char '-') * whole * fraction * exponent

variable {text : List Char}

theorem mem_char {c : Char} : text ∈ (char c).matches' ↔ text = [c] := Iff.rfl

theorem mem_oneOf {chars : List Char} :
    text ∈ (oneOf chars).matches' ↔ ∃ c ∈ chars, text = [c] := by
  induction chars with
  | nil => simp [oneOf, Language.notMem_zero]
  | cons c chars ih =>
    have split : oneOf (c :: chars) = char c + oneOf chars := rfl
    rw [split, matches'_add, Language.mem_add, ih, mem_char, List.exists_mem_cons_iff]

theorem mem_optional {part : RegularExpression Char} :
    text ∈ (optional part).matches' ↔ text = [] ∨ text ∈ part.matches' := by
  rw [optional, matches'_add, Language.mem_add, matches'_epsilon, Language.mem_one]

theorem mem_mul {front back : RegularExpression Char} :
    text ∈ (front * back).matches'
      ↔ ∃ first ∈ front.matches', ∃ second ∈ back.matches', first ++ second = text := by
  rw [matches'_mul, Language.mem_mul]

theorem mem_oneOf_digits (values : List Digit) :
    text ∈ (oneOf (Digit.chars values)).matches' ↔ ∃ value ∈ values, text = [value.toChar] := by
  simp only [mem_oneOf, Digit.chars, List.mem_map, exists_exists_and_eq_and]

theorem mem_digit : text ∈ digit.matches' ↔ ∃ value : Digit, text = [value.toChar] := by
  have every : ∀ value : Digit, value ∈ [0, 1, 2, 3, 4, 5, 6, 7, 8, 9] := by decide
  exact (mem_oneOf_digits [0, 1, 2, 3, 4, 5, 6, 7, 8, 9]).trans
    (exists_congr fun value => and_iff_right (every value))

theorem mem_leadingDigit :
    text ∈ leadingDigit.matches' ↔ ∃ value : Digit, value.val ≠ 0 ∧ text = [value.toChar] := by
  have positive : ∀ value : Digit, value ∈ [1, 2, 3, 4, 5, 6, 7, 8, 9] ↔ value.val ≠ 0 := by decide
  exact (mem_oneOf_digits [1, 2, 3, 4, 5, 6, 7, 8, 9]).trans
    (exists_congr fun value => and_congr_left fun _ => positive value)

theorem mem_star_digit :
    text ∈ (star digit).matches' ↔ ∃ values : List Digit, text = Digit.chars values := by
  rw [matches'_star, Language.mem_kstar]
  constructor
  · rintro ⟨parts, rfl, each⟩
    induction parts with
    | nil => exact ⟨[], rfl⟩
    | cons part parts ih =>
      obtain ⟨first, others⟩ := List.forall_mem_cons.mp each
      obtain ⟨value, rfl⟩ := mem_digit.mp first
      obtain ⟨values, same⟩ := ih others
      exact ⟨value :: values, by rw [List.flatten_cons, same]; rfl⟩
  · rintro ⟨values, rfl⟩
    refine ⟨values.map fun value => [value.toChar], ?_, ?_⟩
    · rw [← List.flatMap_def]
      exact List.map_eq_flatMap
    · intro part member
      obtain ⟨value, -, rfl⟩ := List.mem_map.mp member
      exact mem_digit.mpr ⟨value, rfl⟩

theorem mem_digits :
    text ∈ digits.matches' ↔ ∃ first more, text = Digit.chars (first :: more) := by
  rw [digits, mem_mul]
  constructor
  · rintro ⟨front, digit, back, others, rfl⟩
    obtain ⟨first, rfl⟩ := mem_digit.mp digit
    obtain ⟨more, rfl⟩ := mem_star_digit.mp others
    exact ⟨first, more, rfl⟩
  · rintro ⟨first, more, rfl⟩
    exact ⟨_, mem_digit.mpr ⟨first, rfl⟩, _, mem_star_digit.mpr ⟨more, rfl⟩, rfl⟩

theorem mem_whole : text ∈ whole.matches' ↔ ∃ value, SpelledWhole text value := by
  rw [whole, matches'_add, Language.mem_add, mem_char, mem_mul]
  constructor
  · rintro (rfl | ⟨front, digit, back, others, rfl⟩)
    · exact ⟨0, .zero⟩
    · obtain ⟨first, positive, rfl⟩ := mem_leadingDigit.mp digit
      obtain ⟨more, rfl⟩ := mem_star_digit.mp others
      exact ⟨_, .digits more positive⟩
  · rintro ⟨value, spelled⟩
    cases spelled with
    | zero => exact .inl rfl
    | @digits first more positive =>
      exact .inr ⟨_, mem_leadingDigit.mpr ⟨first, positive, rfl⟩, _,
        mem_star_digit.mpr ⟨more, rfl⟩, rfl⟩

theorem mem_fraction : text ∈ fraction.matches' ↔ ∃ values, SpelledFraction text values := by
  rw [fraction, mem_optional, mem_mul]
  constructor
  · rintro (rfl | ⟨_, rfl, back, some, rfl⟩)
    · exact ⟨[], .absent⟩
    · obtain ⟨first, more, rfl⟩ := mem_digits.mp some
      exact ⟨_, .digits first more⟩
  · rintro ⟨values, spelled⟩
    cases spelled with
    | absent => exact .inl rfl
    | digits first more => exact .inr ⟨['.'], rfl, _, mem_digits.mpr ⟨first, more, rfl⟩, rfl⟩

theorem mem_sign :
    text ∈ (optional (oneOf ['+', '-'])).matches' ↔ ∃ negative, SpelledSign text negative := by
  rw [mem_optional, mem_oneOf]
  constructor
  · rintro (rfl | ⟨c, member, rfl⟩)
    · exact ⟨false, .absent⟩
    · simp only [List.mem_cons, List.not_mem_nil, or_false] at member
      rcases member with rfl | rfl
      · exact ⟨false, .plus⟩
      · exact ⟨true, .minus⟩
  · rintro ⟨negative, spelled⟩
    cases spelled with
    | absent => exact .inl rfl
    | plus => exact .inr ⟨'+', by decide, rfl⟩
    | minus => exact .inr ⟨'-', by decide, rfl⟩

theorem mem_exponent : text ∈ exponent.matches' ↔ ∃ power, SpelledExponent text power := by
  rw [exponent, mem_optional, mem_mul]
  constructor
  · rintro (rfl | ⟨_, letter, _, power, rfl⟩)
    · exact ⟨none, .absent⟩
    · obtain ⟨mark, member, rfl⟩ := mem_oneOf.mp letter
      obtain ⟨sign, optional, back, some, rfl⟩ := mem_mul.mp power
      obtain ⟨negative, spelled⟩ := mem_sign.mp optional
      obtain ⟨first, more, rfl⟩ := mem_digits.mp some
      simp only [List.mem_cons, List.not_mem_nil, or_false] at member
      exact ⟨_, .power first more member spelled⟩
  · rintro ⟨power, spelled⟩
    cases spelled with
    | absent => exact .inl rfl
    | @power mark sign negative first more letter spelled =>
      have digits := mem_digits.mpr ⟨first, more, rfl⟩
      refine .inr ⟨[mark], mem_oneOf.mpr ⟨mark, ?_, rfl⟩, _,
        mem_mul.mpr ⟨sign, mem_sign.mpr ⟨negative, spelled⟩, _, digits, rfl⟩, rfl⟩
      simpa using letter

/-- The expression describes the grammar. -/
theorem mem_literal : text ∈ literal.matches' ↔ ∃ number, Spelled text number := by
  rw [literal, mem_mul]
  constructor
  · rintro ⟨_, mantissa, _, last, rfl⟩
    obtain ⟨_, integer, _, middle, rfl⟩ := mem_mul.mp mantissa
    obtain ⟨sign, minus, _, first, rfl⟩ := mem_mul.mp integer
    obtain ⟨value, spelledWhole⟩ := mem_whole.mp first
    obtain ⟨values, spelledFraction⟩ := mem_fraction.mp middle
    obtain ⟨power, spelledExponent⟩ := mem_exponent.mp last
    have parts (negative : Bool) : Spelled _ ⟨negative, value, values, power⟩ :=
      .parts spelledWhole spelledFraction spelledExponent
    rcases mem_optional.mp minus with rfl | rfl
    · exact ⟨_, parts false⟩
    · exact ⟨_, parts true⟩
  · rintro ⟨number, spelled⟩
    cases spelled with
    | parts first middle last =>
      have minus : number.signChars ∈ (optional (char '-')).matches' := by
        rw [mem_optional, mem_char, signChars]
        cases number.negative <;> simp
      exact ⟨_, mem_mul.mpr ⟨_, mem_mul.mpr ⟨_, minus, _, mem_whole.mpr ⟨_, first⟩, rfl⟩, _,
        mem_fraction.mpr ⟨_, middle⟩, rfl⟩, _, mem_exponent.mpr ⟨_, last⟩, rfl⟩

end JsonTree.Number.Expression
