import JsonTree.Number.Basic
import JsonTree.Proofs.Digit

/-! A number literal that was written is read back part by part. -/

set_option autoImplicit false

namespace JsonTree

def NoDigit (text : List Char) : Prop := ∀ c tail, text = c :: tail → Digit.ofChar? c = none

/-- A text whose front cannot be taken for more of a number literal. -/
def EndsNumber (text : List Char) : Prop :=
  ∀ c tail, text = c :: tail → Digit.ofChar? c = none ∧ c ≠ '.' ∧ c ≠ 'e' ∧ c ≠ 'E'

theorem EndsNumber.noDigit {text : List Char} (ends : EndsNumber text) : NoDigit text :=
  fun c tail same => (ends c tail same).1

theorem endsNumber_nil : EndsNumber [] := fun _ _ same => by contradiction

theorem noDigit_cons {c : Char} (other : Digit.ofChar? c = none) (tail : List Char) :
    NoDigit (c :: tail) := by
  rintro _ _ ⟨rfl, rfl⟩
  exact other

namespace Number

theorem scanSign_chars {text : List Char} (unsigned : ∀ tail, text ≠ '-' :: tail)
    (number : Number) : scanSign (number.signChars ++ text) = (number.negative, text) := by
  unfold signChars
  cases number.negative with
  | true => rfl
  | false =>
    show scanSign text = (false, text)
    unfold scanSign
    split
    · next tail => exact absurd rfl (unsigned tail)
    · rfl

theorem natChars_ne_minus (n : Nat) (rest tail : List Char) : natChars n ++ rest ≠ '-' :: tail := by
  unfold natChars
  cases digits : Digit.ofNat n with
  | nil => exact absurd digits (Digit.ofNat_ne_nil n)
  | cons first more => exact fun same => Digit.toChar_ne_minus first (List.cons.inj same).1

theorem scanWhole_natChars (n : Nat) {rest : List Char} (stop : NoDigit rest) :
    scanWhole (natChars n ++ rest) = some (n, rest) := by
  have read : Digit.scan (natChars n ++ rest) = (Digit.ofNat n, rest) := Digit.scan_chars _ _ stop
  have value := Digit.value_ofNat n
  rw [scanWhole, read]
  cases digits : Digit.ofNat n with
  | nil => exact absurd digits (Digit.ofNat_ne_nil n)
  | cons first more =>
    rw [digits] at value
    have canonical : ¬ (first.val = 0 ∧ more ≠ []) :=
      fun both => both.2 (Digit.leading_ofNat digits both.1)
    simp only [if_neg canonical, value]

theorem scanFraction_absent {text : List Char} (noPoint : ∀ tail, text ≠ '.' :: tail) :
    scanFraction text = some ([], text) := by
  unfold scanFraction
  split
  · next tail => exact absurd rfl (noPoint tail)
  · rfl

theorem scanFraction_chars (number : Number) {rest : List Char} (stop : NoDigit rest)
    (noPoint : ∀ tail, rest ≠ '.' :: tail) :
    scanFraction (number.fractionChars ++ rest) = some (number.fraction, rest) := by
  unfold fractionChars
  cases number.fraction with
  | nil => exact scanFraction_absent noPoint
  | cons first more =>
    have read : Digit.scan (Digit.chars (first :: more) ++ rest) = (first :: more, rest) :=
      Digit.scan_chars _ _ stop
    simp only [List.cons_append, scanFraction, read]

theorem scanExponent_absent {text : List Char}
    (noMark : ∀ c tail, text = c :: tail → c ≠ 'e' ∧ c ≠ 'E') :
    scanExponent text = some (none, text) := by
  unfold scanExponent
  split
  · next tail => exact absurd rfl (noMark 'e' tail rfl).1
  · next tail => exact absurd rfl (noMark 'E' tail rfl).2
  · rfl

theorem scanExponent_ends {text : List Char} (ends : EndsNumber text) :
    scanExponent text = some (none, text) :=
  scanExponent_absent fun c tail same => (ends c tail same).2.2

theorem noDigit_fraction (number : Number) {rest : List Char} (stop : NoDigit rest) :
    NoDigit (number.fractionChars ++ rest) := by
  unfold fractionChars
  cases number.fraction with
  | nil => exact stop
  | cons first more => exact noDigit_cons (by decide) _

end Number

end JsonTree
