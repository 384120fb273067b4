import JsonTree.Proofs.Number.Literal

/-! The texts of number literals, by the grammar of RFC 8259.

A text is read as a number exactly when the grammar derives it, and then as the number
of the derivation, so a text denotes one number at most.
-/

set_option autoImplicit false

namespace JsonTree.Number

inductive SpelledWhole : List Char → Nat → Prop where
  | zero : SpelledWhole ['0'] 0
  | digits {first : Digit} (more : List Digit) : first.val ≠ 0 →
      SpelledWhole (Digit.chars (first :: more)) (Digit.value (first :: more))

inductive SpelledFraction : List Char → List Digit → Prop where
  | absent : SpelledFraction [] []
  | digits (first : Digit) (more : List Digit) :
      SpelledFraction ('.' :: Digit.chars (first :: more)) (first :: more)

inductive SpelledSign : List Char → Bool → Prop where
  | absent : SpelledSign [] false
  | plus : SpelledSign ['+'] false
  | minus : SpelledSign ['-'] true

/-- Nothing, or an `e` of either case, a sign that may be left out, and a digit at least. -/
inductive SpelledExponent : List Char → Option Exponent → Prop where
  | absent : SpelledExponent [] none
  | power {mark : Char} {sign : List Char} {negative : Bool} (first : Digit) (more : List Digit) :
      mark = 'e' ∨ mark = 'E' → SpelledSign sign negative →
      SpelledExponent (mark :: (sign ++ Digit.chars (first :: more))) (some ⟨negative, first, more⟩)

/-- A literal and its parts. Only a minus is written in front. -/
inductive Spelled : List Char → Number → Prop where
  | parts {whole fraction exponent : List Char} {number : Number} :
      SpelledWhole whole number.whole → SpelledFraction fraction number.fraction →
      SpelledExponent exponent number.exponent →
      Spelled (number.signChars ++ whole ++ fraction ++ exponent) number

theorem noDigit_scan (text : List Char) : NoDigit (Digit.scan text).2 := by
  induction text with
  | nil => rintro _ _ ⟨⟩
  | cons c tail ih =>
    unfold Digit.scan
    split
    · exact ih
    · next other => exact noDigit_cons other tail

theorem scanSign_split (text : List Char) :
    (if (scanSign text).1 then ['-'] else []) ++ (scanSign text).2 = text := by
  unfold scanSign
  split <;> rfl

theorem spelledWhole_of_scan {text rest : List Char} {whole : Nat}
    (read : scanWhole text = some (whole, rest)) :
    ∃ written, SpelledWhole written whole ∧ written ++ rest = text := by
  have taken := Digit.chars_scan text
  unfold scanWhole at read
  split at read
  · contradiction
  · next first more left scanned =>
    rw [scanned] at taken
    split at read
    · contradiction
    · next canonical =>
      obtain ⟨rfl, rfl⟩ := Prod.mk.inj (Option.some.inj read)
      refine ⟨_, ?_, taken⟩
      by_cases zero : first.val = 0
      · obtain rfl : more = [] := Classical.not_not.mp fun some => canonical ⟨zero, some⟩
        obtain rfl : first = 0 := Fin.ext zero
        exact .zero
      · exact .digits more zero

theorem spelledFraction_of_scan {text rest : List Char} {digits : List Digit}
    (read : scanFraction text = some (digits, rest)) :
    ∃ written, SpelledFraction written digits ∧ written ++ rest = text := by
  unfold scanFraction at read
  split at read
  · next tail =>
    have taken := Digit.chars_scan tail
    split at read
    · contradiction
    · next first more left scanned =>
      obtain ⟨rfl, rfl⟩ := Prod.mk.inj (Option.some.inj read)
      rw [scanned] at taken
      exact ⟨_, .digits first more, congrArg ('.' :: ·) taken⟩
  · obtain ⟨rfl, rfl⟩ := Prod.mk.inj (Option.some.inj read)
    exact ⟨[], .absent, rfl⟩

theorem scanExponentSign_split (text : List Char) :
    ∃ sign, SpelledSign sign (scanExponentSign text).1
      ∧ sign ++ (scanExponentSign text).2 = text := by
  unfold scanExponentSign
  split
  · exact ⟨_, .minus, rfl⟩
  · exact ⟨_, .plus, rfl⟩
  · exact ⟨_, .absent, rfl⟩

theorem spelledExponent_of_scanPower {mark : Char} (letter : mark = 'e' ∨ mark = 'E')
    {text rest : List Char} {power : Option Exponent} (read : scanPower text = some (power, rest)) :
    ∃ written, SpelledExponent written power ∧ written ++ rest = mark :: text := by
  obtain ⟨sign, spelled, front⟩ := scanExponentSign_split text
  have taken := Digit.chars_scan (scanExponentSign text).2
  unfold scanPower at read
  split at read
  · contradiction
  · next first more left scanned =>
    obtain ⟨rfl, rfl⟩ := Prod.mk.inj (Option.some.inj read)
    rw [scanned] at taken
    refine ⟨_, .power first more letter spelled, ?_⟩
    rw [List.cons_append, List.append_assoc, taken, front]

theorem spelledExponent_of_scan {text rest : List Char} {power : Option Exponent}
    (read : scanExponent text = some (power, rest)) :
    ∃ written, SpelledExponent written power ∧ written ++ rest = text := by
  unfold scanExponent at read
  split at read
  · exact spelledExponent_of_scanPower (.inl rfl) read
  · exact spelledExponent_of_scanPower (.inr rfl) read
  · obtain ⟨rfl, rfl⟩ := Prod.mk.inj (Option.some.inj read)
    exact ⟨[], .absent, rfl⟩

theorem spelled_of_scan {text rest : List Char} {number : Number}
    (read : scan text = some (number, rest)) :
    ∃ written, Spelled written number ∧ written ++ rest = text := by
  have sign := scanSign_split text
  simp only [scan, bind, Option.bind_eq_some_iff, pure] at read
  obtain ⟨⟨whole, afterWhole⟩, wholeRead, ⟨fraction, afterFraction⟩, fractionRead,
    ⟨exponent, afterExponent⟩, exponentRead, result⟩ := read
  obtain ⟨rfl, rfl⟩ := Prod.mk.inj (Option.some.inj result)
  obtain ⟨first, wholeSpelled, wholeSplit⟩ := spelledWhole_of_scan wholeRead
  obtain ⟨second, fractionSpelled, fractionSplit⟩ := spelledFraction_of_scan fractionRead
  obtain ⟨third, exponentSpelled, exponentSplit⟩ := spelledExponent_of_scan exponentRead
  dsimp only at fractionSplit exponentSplit
  refine ⟨_, .parts wholeSpelled fractionSpelled exponentSpelled, ?_⟩
  rw [List.append_assoc, List.append_assoc, List.append_assoc, exponentSplit, fractionSplit,
    wholeSplit]
  exact sign

theorem SpelledWhole.eq_natChars {written : List Char} {whole : Nat}
    (spelled : SpelledWhole written whole) : written = natChars whole := by
  cases spelled with
  | zero => rw [natChars, Digit.ofNat_small (by decide)]; rfl
  | digits more positive =>
    rw [natChars, Digit.ofNat_value_cons _ _ fun zero => absurd zero positive]

theorem SpelledFraction.eq_fractionChars {written : List Char} {number : Number}
    (spelled : SpelledFraction written number.fraction) : written = number.fractionChars := by
  unfold fractionChars
  cases same : number.fraction with
  | nil => rw [same] at spelled; cases spelled; rfl
  | cons first more => rw [same] at spelled; cases spelled; rfl

section

variable {property : Char → Prop} (digits : ∀ digit : Digit, property digit.toChar)
  (marks : ∀ mark ∈ ['-', '+', '.', 'e', 'E'], property mark)
include digits marks

theorem SpelledExponent.forall_mem {written : List Char} {power : Option Exponent}
    (spelled : SpelledExponent written power) : ∀ c ∈ written, property c := by
  cases spelled with
  | absent => exact List.forall_mem_nil _
  | @power mark sign _ first more letter signed =>
    have letterMark : property mark := marks mark (by rcases letter with rfl | rfl <;> decide)
    have signMark : ∀ c ∈ sign, property c := by
      intro c member
      exact marks c (by cases signed <;> simp_all)
    exact List.forall_mem_cons.mpr
      ⟨letterMark, List.forall_mem_append.mpr ⟨signMark, Digit.forall_mem_chars digits _⟩⟩

/-- What holds of the digits and of five marks holds of all characters of a literal, however it
is spelled. -/
theorem Spelled.forall_mem {text : List Char} {number : Number} (spelled : Spelled text number) :
    ∀ c ∈ text, property c := by
  cases spelled with
  | parts whole fraction exponent =>
    rw [whole.eq_natChars, fraction.eq_fractionChars]
    simp only [List.forall_mem_append]
    refine ⟨⟨⟨?_, Digit.forall_mem_chars digits _⟩, ?_⟩, exponent.forall_mem digits marks⟩
    · unfold signChars
      split
      · exact List.forall_mem_singleton.mpr (marks '-' (by decide))
      · exact List.forall_mem_nil _
    · unfold fractionChars
      split
      · exact List.forall_mem_nil _
      · exact List.forall_mem_cons.mpr
          ⟨marks '.' (by decide), Digit.forall_mem_chars digits _⟩

end

theorem SpelledSign.scan {sign : List Char} {negative : Bool} (spelled : SpelledSign sign negative)
    (digit : Digit) (rest : List Char) :
    scanExponentSign (sign ++ digit.toChar :: rest) = (negative, digit.toChar :: rest) := by
  have unsigned : ∀ digit : Digit, digit.toChar ≠ '-' ∧ digit.toChar ≠ '+' := by decide
  cases spelled with
  | absent =>
    rw [List.nil_append]
    unfold scanExponentSign
    split
    · next same => exact absurd (List.cons.inj same).1 (unsigned digit).1
    · next same => exact absurd (List.cons.inj same).1 (unsigned digit).2
    · rfl
  | plus => rfl
  | minus => rfl

theorem SpelledExponent.scan {written : List Char} {power : Option Exponent}
    (spelled : SpelledExponent written power) {rest : List Char} (ends : EndsNumber rest) :
    scanExponent (written ++ rest) = some (power, rest) := by
  cases spelled with
  | absent => exact scanExponent_ends ends
  | @power mark sign negative first more letter spelled =>
    have read : Digit.scan (Digit.chars (first :: more) ++ rest) = (first :: more, rest) :=
      Digit.scan_chars _ _ ends.noDigit
    have signed := spelled.scan first (Digit.chars more ++ rest)
    have power : scanPower (sign ++ Digit.chars (first :: more) ++ rest)
        = some (some ⟨negative, first, more⟩, rest) := by
      rw [scanPower, List.append_assoc]
      simp only [Digit.chars, List.map_cons, List.cons_append] at signed read ⊢
      simp only [signed, read]
    rcases letter with rfl | rfl <;> exact power

theorem SpelledExponent.front {written : List Char} {power : Option Exponent}
    (spelled : SpelledExponent written power) {rest : List Char} (ends : EndsNumber rest) {c : Char}
    {tail : List Char} (front : written ++ rest = c :: tail) :
    Digit.ofChar? c = none ∧ c ≠ '.' := by
  cases spelled with
  | absent => exact ⟨(ends c tail front).1, (ends c tail front).2.1⟩
  | power first more letter sign =>
    obtain ⟨rfl, -⟩ := List.cons.inj front
    rcases letter with rfl | rfl <;> decide

theorem Spelled.front {text : List Char} {number : Number} (spelled : Spelled text number) :
    ∃ c tail, text = c :: tail ∧ (c = '-' ∨ ∃ digit : Digit, c = digit.toChar) := by
  cases spelled with
  | @parts whole fraction exponent _ wholeSpelled _ _ =>
    unfold signChars
    split
    · exact ⟨_, _, rfl, .inl rfl⟩
    · generalize number.whole = n at wholeSpelled
      cases wholeSpelled with
      | zero => exact ⟨_, _, rfl, .inr ⟨0, rfl⟩⟩
      | @digits first more _ => exact ⟨_, _, rfl, .inr ⟨first, rfl⟩⟩

theorem Spelled.scan {written rest : List Char} {number : Number} (spelled : Spelled written number)
    (ends : EndsNumber rest) : Number.scan (written ++ rest) = some (number, rest) := by
  cases spelled with
  | @parts whole fraction exponent _ wholeSpelled fractionSpelled exponentSpelled =>
    obtain rfl := wholeSpelled.eq_natChars
    obtain rfl := fractionSpelled.eq_fractionChars
    have stop : NoDigit (exponent ++ rest) :=
      fun c tail same => (exponentSpelled.front ends same).1
    have noPoint (tail : List Char) : exponent ++ rest ≠ '.' :: tail :=
      fun same => (exponentSpelled.front ends same).2 rfl
    have fractionRead := scanFraction_chars number stop noPoint
    have wholeRead := scanWhole_natChars number.whole (noDigit_fraction number stop)
    have sign := scanSign_chars (natChars_ne_minus number.whole
      (number.fractionChars ++ (exponent ++ rest))) number
    simp only [List.append_assoc]
    rw [Number.scan, sign]
    simp only [wholeRead, fractionRead, exponentSpelled.scan ends, bind, Option.bind, pure]

theorem read?_of_spelled {text : List Char} {number : Number} (spelled : Spelled text number) :
    read? text = some number := by
  have read := spelled.scan endsNumber_nil
  rw [List.append_nil] at read
  rw [read?, read]

/-- The texts of numbers are those of the grammar, each with its parts. -/
theorem read?_eq_some_iff {text : List Char} {number : Number} :
    read? text = some number ↔ Spelled text number := by
  refine ⟨fun read => ?_, read?_of_spelled⟩
  unfold read? at read
  split at read
  · next found scanned =>
    obtain rfl := Option.some.inj read
    obtain ⟨written, spelled, split⟩ := spelled_of_scan scanned
    rw [List.append_nil] at split
    exact split ▸ spelled
  · contradiction

theorem parse_eq_ok_iff {text : String} {number : Number} :
    parse text = .ok number ↔ Spelled text.toList number := by
  rw [← read?_eq_some_iff, parse]
  cases read? text.toList <;> simp

theorem spelledWhole_natChars (n : Nat) : SpelledWhole (natChars n) n := by
  have value := Digit.value_ofNat n
  unfold natChars
  cases digits : Digit.ofNat n with
  | nil => exact absurd digits (Digit.ofNat_ne_nil n)
  | cons first more =>
    rw [digits] at value
    by_cases zero : first.val = 0
    · obtain rfl := Digit.leading_ofNat digits zero
      obtain rfl : first = 0 := Fin.ext zero
      exact value ▸ .zero
    · exact value ▸ .digits more zero

theorem spelledFraction_chars (number : Number) :
    SpelledFraction number.fractionChars number.fraction := by
  unfold fractionChars
  cases number.fraction with
  | nil => exact .absent
  | cons first more => exact .digits first more

theorem spelledExponent_chars (number : Number) :
    SpelledExponent number.exponentChars number.exponent := by
  unfold exponentChars
  cases number.exponent with
  | none => exact .absent
  | some exponent =>
    obtain ⟨negative, first, more⟩ := exponent
    cases negative with
    | true => exact .power first more (.inl rfl) .minus
    | false => exact .power first more (.inl rfl) .plus

theorem spelled_chars (number : Number) : Spelled number.chars number :=
  .parts (spelledWhole_natChars number.whole) number.spelledFraction_chars
    number.spelledExponent_chars

end JsonTree.Number
