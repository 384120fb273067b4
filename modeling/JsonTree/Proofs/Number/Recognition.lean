import JsonTree.Number.Recognizer
import JsonTree.Proofs.Number.Grammar
import JsonTree.Proofs.Related

/-! The bytes of a text are recognized as a number literal just when its characters are read as a
number.

The recognizer goes on by places and the reader by what is left of the text. They stay together,
because every character that either of them takes is a single byte, and no byte of a longer
character looks like one of those.
-/

set_option autoImplicit false

namespace JsonTree.Number

def IsShort (c : Char) : Prop := c.toNat < 128

instance (c : Char) : Decidable (IsShort c) := inferInstanceAs (Decidable (_ < _))

theorem isShort_digit (digit : Digit) : IsShort digit.toChar := by
  revert digit
  decide

theorem toNat_toUInt8 {c : Char} (short : IsShort c) : c.toUInt8.toNat = c.toNat :=
  Nat.mod_eq_of_lt (Nat.lt_trans short (by decide))

theorem utf8EncodeChar_short {c : Char} (short : IsShort c) :
    String.utf8EncodeChar c = [c.toUInt8] := by
  have small : c.val.toNat ≤ 127 := Nat.le_of_lt_succ short
  simp only [String.utf8EncodeChar, if_pos small]
  rfl

theorem utf8EncodeChar_long {c : Char} (long : ¬ IsShort c) :
    ∃ byte others, String.utf8EncodeChar c = byte :: others ∧ 128 ≤ byte.toNat := by
  have large : ¬ c.val.toNat ≤ 127 := fun small => long (Nat.lt_succ_of_le small)
  simp only [String.utf8EncodeChar, if_neg large]
  split
  · exact ⟨_, _, rfl, by simp; omega⟩
  · split
    · exact ⟨_, _, rfl, by simp; omega⟩
    · exact ⟨_, _, rfl, by simp; omega⟩

/-- The byte that a character begins with tells it from every character of one byte. -/
theorem head_utf8EncodeChar {c short : Char} (isShort : IsShort short) {byte : UInt8}
    {others : List UInt8} (bytes : String.utf8EncodeChar c = byte :: others) :
    byte = short.toUInt8 ↔ c = short := by
  by_cases both : IsShort c
  · obtain ⟨rfl, -⟩ := List.cons.inj ((utf8EncodeChar_short both).symm.trans bytes)
    rw [← UInt8.toNat_inj, toNat_toUInt8 both, toNat_toUInt8 isShort]
    exact Char.toNat_inj
  · obtain ⟨first, _, same, upper⟩ := utf8EncodeChar_long both
    obtain ⟨rfl, -⟩ := List.cons.inj (same.symm.trans bytes)
    refine ⟨?_, fun same => absurd (same ▸ isShort) both⟩
    rintro rfl
    rw [toNat_toUInt8 isShort] at upper
    exact absurd isShort (Nat.not_lt.mpr upper)

theorem isDigitByte_iff (byte : UInt8) :
    isDigitByte byte = true ↔ 48 ≤ byte.toNat ∧ byte.toNat < 58 := by
  simp only [isDigitByte, Bool.and_eq_true, decide_eq_true_eq, UInt8.le_iff_toNat_le]
  exact and_congr_right fun _ => Nat.lt_succ_iff.symm

theorem isSome_digit_iff (c : Char) :
    (Digit.ofChar? c).isSome = true ↔ 48 ≤ c.toNat ∧ c.toNat < 58 := by
  unfold Digit.ofChar?
  split
  · next range => exact iff_of_true rfl range
  · next range => exact iff_of_false Bool.false_ne_true range

theorem isDigitByte_head {c : Char} {byte : UInt8} {others : List UInt8}
    (encoded : String.utf8EncodeChar c = byte :: others) :
    isDigitByte byte = (Digit.ofChar? c).isSome := by
  rw [Bool.eq_iff_iff, isDigitByte_iff, isSome_digit_iff]
  by_cases short : IsShort c
  · obtain ⟨rfl, -⟩ := List.cons.inj ((utf8EncodeChar_short short).symm.trans encoded)
    rw [toNat_toUInt8 short]
  · obtain ⟨first, _, same, upper⟩ := utf8EncodeChar_long short
    obtain ⟨rfl, -⟩ := List.cons.inj (same.symm.trans encoded)
    unfold IsShort at short
    omega

def utf8Bytes (text : List Char) : List UInt8 := text.flatMap String.utf8EncodeChar

theorem utf8Bytes_cons (c : Char) (text : List Char) :
    utf8Bytes (c :: text) = String.utf8EncodeChar c ++ utf8Bytes text := List.flatMap_cons

theorem toUTF8_toList (text : String) : text.toUTF8.data.toList = utf8Bytes text.toList := by
  rw [String.toUTF8_eq_toByteArray, ← String.utf8Encode_toList]
  exact List.toList_data_toByteArray

/-- What is left of a text at a place in its bytes. -/
def Ahead (bytes : List UInt8) (place : Nat) (text : List Char) : Prop :=
  ∃ behind, bytes = behind ++ utf8Bytes text ∧ behind.length = place

section

variable {bytes : List UInt8} {place : Nat} {text : List Char}

theorem Ahead.byte (ahead : Ahead bytes place text) : bytes[place]? = (utf8Bytes text).head? := by
  obtain ⟨behind, rfl, rfl⟩ := ahead
  rw [List.getElem?_append_right (Nat.le_refl _), Nat.sub_self, List.head?_eq_getElem?]

theorem Ahead.move {c : Char} (short : IsShort c) (ahead : Ahead bytes place (c :: text)) :
    Ahead bytes (place + 1) text := by
  obtain ⟨behind, rfl, rfl⟩ := ahead
  refine ⟨behind ++ [c.toUInt8], ?_, List.length_append⟩
  rw [utf8Bytes_cons, utf8EncodeChar_short short, List.append_assoc]

theorem Ahead.eq_nil_iff (ahead : Ahead bytes place text) : place = bytes.length ↔ text = [] := by
  obtain ⟨behind, rfl, rfl⟩ := ahead
  cases text with
  | nil => simp [utf8Bytes]
  | cons c text =>
    have size := c.utf8Size_pos
    rw [utf8Bytes_cons, List.length_append, List.length_append, String.length_utf8EncodeChar]
    simp only [reduceCtorEq, iff_false]
    omega

theorem Ahead.standsAt_iff (chars : List Char) (short : ∀ c ∈ chars, IsShort c)
    (ahead : Ahead bytes place text) :
    standsAt bytes place chars = true ↔ ∃ c ∈ chars, ∃ tail, text = c :: tail := by
  unfold standsAt
  rw [ahead.byte]
  cases text with
  | nil => simp [utf8Bytes]
  | cons front tail =>
    obtain ⟨byte, others, encoded⟩ :=
      List.exists_cons_of_ne_nil (String.utf8EncodeChar_ne_nil (c := front))
    rw [utf8Bytes_cons, encoded, List.cons_append, List.head?_cons]
    simp only [List.any_eq_true, beq_iff_eq, List.cons.injEq]
    constructor
    · rintro ⟨c, member, same⟩
      exact ⟨c, member, tail, (head_utf8EncodeChar (short c member) encoded).mp same, rfl⟩
    · rintro ⟨c, member, _, same, -⟩
      exact ⟨c, member, (head_utf8EncodeChar (short c member) encoded).mpr same⟩

theorem Ahead.digits (ahead : Ahead bytes place text) :
    Ahead bytes (skipDigits bytes place) (Digit.scan text).2
      ∧ skipDigits bytes place = place + (Digit.scan text).1.length := by
  induction text generalizing place with
  | nil =>
    have nothing := ahead.byte
    rw [skipDigits]
    split
    · next found => rw [found] at nothing; contradiction
    · exact ⟨ahead, rfl⟩
  | cons c text ih =>
    obtain ⟨byte, others, encoded⟩ :=
      List.exists_cons_of_ne_nil (String.utf8EncodeChar_ne_nil (c := c))
    have front := ahead.byte
    rw [utf8Bytes_cons, encoded, List.cons_append, List.head?_cons] at front
    have sameDigit := isDigitByte_head encoded
    rw [skipDigits, Digit.scan]
    split
    · next other found =>
      obtain rfl := Option.some.inj (front.symm.trans found)
      rw [sameDigit]
      cases read : Digit.ofChar? c with
      | none => exact ⟨ahead, rfl⟩
      | some digit =>
        obtain rfl := Digit.ofChar?_eq_some read
        obtain ⟨later, length⟩ := ih (ahead.move (isShort_digit digit))
        refine ⟨later, ?_⟩
        rw [Option.isSome_some, if_pos rfl, length, List.length_cons]
        omega
    · next found => rw [front] at found; contradiction

/-- A place moves over a part of a literal just when the part is read, and stands before what is
left then. -/
inductive Follows (bytes : List UInt8) {α : Type} : Option Nat → Option (α × List Char) → Prop where
  | refused : Follows bytes none none
  | moved {place : Nat} {rest : List Char} (part : α) : Ahead bytes place rest →
      Follows bytes (some place) (some (part, rest))

theorem Ahead.someDigits (ahead : Ahead bytes place text) :
    Follows bytes (skipSomeDigits? bytes place)
      (if (Digit.scan text).1 = [] then none else some (Digit.scan text)) := by
  obtain ⟨behind, length⟩ := ahead.digits
  have stays : skipDigits bytes place = place ↔ (Digit.scan text).1 = [] := by
    rw [length, ← List.length_eq_zero_iff]
    omega
  unfold skipSomeDigits?
  by_cases none : (Digit.scan text).1 = []
  · rw [if_pos none, if_pos (stays.mpr none)]
    exact .refused
  · rw [if_neg none, if_neg (mt stays.mp none)]
    exact .moved _ behind

theorem Follows.exists_place {α : Type} {skipped : Option Nat} {part : α} {rest : List Char}
    (follows : Follows bytes skipped (some (part, rest))) :
    ∃ place, skipped = some place ∧ Ahead bytes place rest := by
  cases follows with
  | moved _ behind => exact ⟨_, rfl, behind⟩

theorem Follows.imp {α β : Type} {skipped : Option Nat} {read : Option (α × List Char)}
    {other : Option (β × List Char)} (follows : Follows bytes skipped read)
    (same : other.map Prod.snd = read.map Prod.snd) : Follows bytes skipped other := by
  cases follows with
  | refused =>
    rw [Option.map_eq_none_iff.mp same]
    exact .refused
  | moved part behind =>
    obtain ⟨⟨part, _⟩, rfl, rfl⟩ := Option.map_eq_some_iff.mp same
    exact .moved part behind

theorem Follows.bind {α β : Type} {skipped : Option Nat} {read : Option (α × List Char)}
    {skip : Nat → Option Nat} {scan : α × List Char → Option (β × List Char)}
    (follows : Follows bytes skipped read)
    (later : ∀ place part rest, Ahead bytes place rest →
      Follows bytes (skip place) (scan (part, rest))) :
    Follows bytes (skipped.bind skip) (read.bind scan) := by
  cases follows with
  | refused => exact .refused
  | moved part behind => exact later _ part _ behind

theorem Ahead.sign (ahead : Ahead bytes place text) :
    Ahead bytes (skipSign bytes place) (scanSign text).2 := by
  have stands := ahead.standsAt_iff ['-'] (forall_of_all (by decide))
  simp only [List.mem_singleton, exists_eq_left] at stands
  unfold scanSign
  split
  · next tail =>
    rw [skipSign, if_pos (stands.mpr ⟨tail, rfl⟩)]
    exact ahead.move (by decide)
  · next other =>
    rw [skipSign, if_neg fun minus => (stands.mp minus).elim other]
    exact ahead

theorem Ahead.fraction (ahead : Ahead bytes place text) :
    Follows bytes (skipFraction? bytes place) (scanFraction text) := by
  have stands := ahead.standsAt_iff ['.'] (forall_of_all (by decide))
  simp only [List.mem_singleton, exists_eq_left] at stands
  unfold scanFraction
  split
  · next tail =>
    rw [skipFraction?, if_pos (stands.mpr ⟨tail, rfl⟩)]
    refine (ahead.move (by decide)).someDigits.imp ?_
    split
    · next scanned => rw [scanned]; rfl
    · next scanned => rw [scanned]; rfl
  · next other =>
    rw [skipFraction?, if_neg fun point => (stands.mp point).elim other]
    exact .moved _ ahead

theorem Ahead.exponentSign (ahead : Ahead bytes place text) :
    Ahead bytes (skipExponentSign bytes place) (scanExponentSign text).2 := by
  have stands := ahead.standsAt_iff ['+', '-'] (forall_of_all (by decide))
  unfold scanExponentSign
  split
  · next tail =>
    rw [skipExponentSign, if_pos (stands.mpr ⟨'-', by decide, tail, rfl⟩)]
    exact ahead.move (by decide)
  · next tail =>
    rw [skipExponentSign, if_pos (stands.mpr ⟨'+', by decide, tail, rfl⟩)]
    exact ahead.move (by decide)
  · next noMinus noPlus =>
    rw [skipExponentSign, if_neg]
    · exact ahead
    · intro sign
      obtain ⟨c, member, tail, same⟩ := stands.mp sign
      simp only [List.mem_cons, List.not_mem_nil, or_false] at member
      rcases member with rfl | rfl
      · exact noPlus tail same
      · exact noMinus tail same

theorem Ahead.power (ahead : Ahead bytes place text) :
    Follows bytes (skipSomeDigits? bytes (skipExponentSign bytes place)) (scanPower text) := by
  refine ahead.exponentSign.someDigits.imp ?_
  unfold scanPower
  split
  · next scanned => rw [scanned]; rfl
  · next scanned => rw [scanned]; rfl

theorem Ahead.exponent (ahead : Ahead bytes place text) :
    Follows bytes (skipExponent? bytes place) (scanExponent text) := by
  have stands := ahead.standsAt_iff ['e', 'E'] (forall_of_all (by decide))
  unfold scanExponent
  split
  · next tail =>
    rw [skipExponent?, if_pos (stands.mpr ⟨'e', by decide, tail, rfl⟩)]
    exact (ahead.move (by decide)).power
  · next tail =>
    rw [skipExponent?, if_pos (stands.mpr ⟨'E', by decide, tail, rfl⟩)]
    exact (ahead.move (by decide)).power
  · next noSmall noLarge =>
    rw [skipExponent?, if_neg]
    · exact .moved _ ahead
    · intro mark
      obtain ⟨c, member, tail, same⟩ := stands.mp mark
      simp only [List.mem_cons, List.not_mem_nil, or_false] at member
      rcases member with rfl | rfl
      · exact noSmall tail same
      · exact noLarge tail same

/-- Where a digit follows a leading zero, no number is read, and the recognizer stops in front of
that digit. -/
theorem Ahead.whole (ahead : Ahead bytes place text) :
    Follows bytes (skipWhole? bytes place) (scanWhole text)
      ∨ scanWhole text = none ∧ ∃ next, skipWhole? bytes place = some next
        ∧ ∃ (digit : Digit) (tail : List Char), Ahead bytes next (digit.toChar :: tail) := by
  have stands := ahead.standsAt_iff ['0'] (forall_of_all (by decide))
  simp only [List.mem_singleton, exists_eq_left] at stands
  by_cases zero : ∃ tail, text = '0' :: tail
  · obtain ⟨tail, rfl⟩ := zero
    have behind := ahead.move (by decide)
    have scanned : Digit.scan ('0' :: tail) = (0 :: (Digit.scan tail).1, (Digit.scan tail).2) := rfl
    rw [← Digit.chars_scan tail] at behind
    rw [skipWhole?, if_pos (stands.mpr ⟨tail, rfl⟩), scanWhole, scanned]
    cases more : (Digit.scan tail).1 with
    | nil =>
      rw [more] at behind
      exact .inl (.moved _ behind)
    | cons digit others =>
      rw [more] at behind
      exact .inr ⟨rfl, _, rfl, digit, _, behind⟩
  -- Without a zero in front the first digit is another one, and no rule forbids more of them.
  · have positive (first : Digit) (more : List Digit) (rest : List Char)
        (scanned : Digit.scan text = (first :: more, rest)) : ¬ (first.val = 0 ∧ more ≠ []) := by
      rintro ⟨leading, -⟩
      obtain rfl : first = 0 := Fin.ext leading
      have taken := Digit.chars_scan text
      rw [scanned] at taken
      exact zero ⟨_, taken.symm⟩
    rw [skipWhole?, if_neg (mt stands.mp zero)]
    refine .inl (ahead.someDigits.imp ?_)
    unfold scanWhole
    split
    · next scanned => rw [scanned]; rfl
    · next first more rest scanned => rw [if_neg (positive first more rest scanned), scanned]; rfl

end

theorem scanFraction_digit (digit : Digit) (tail : List Char) :
    scanFraction (digit.toChar :: tail) = some ([], digit.toChar :: tail) := by
  have noPoint : ∀ digit : Digit, digit.toChar ≠ '.' := by decide
  exact scanFraction_absent fun _ same => noPoint digit (List.cons.inj same).1

theorem scanExponent_digit (digit : Digit) (tail : List Char) :
    scanExponent (digit.toChar :: tail) = some (none, digit.toChar :: tail) := by
  have noMark : ∀ digit : Digit, digit.toChar ≠ 'e' ∧ digit.toChar ≠ 'E' := by decide
  refine scanExponent_absent ?_
  rintro _ _ ⟨rfl, rfl⟩
  exact noMark digit

theorem skipLiteral?_utf8Bytes (text : List Char) :
    Follows (utf8Bytes text) (skipLiteral? (utf8Bytes text)) (scan text)
      ∨ scan text = none ∧ ∃ last, skipLiteral? (utf8Bytes text) = some last
        ∧ last ≠ (utf8Bytes text).length := by
  have start : Ahead (utf8Bytes text) 0 text := ⟨[], rfl, rfl⟩
  unfold skipLiteral? scan
  rcases start.sign.whole with follows | ⟨refused, place, moved, digit, tail, ahead⟩
  · refine .inl (follows.bind fun place whole rest behind => ?_)
    refine behind.fraction.bind fun place fraction rest behind => ?_
    refine behind.exponent.imp ?_
    dsimp only
    cases scanExponent rest <;> rfl
  · -- Neither a fraction nor an exponent begins with the digit, so the place stays there.
    have fraction := ahead.fraction
    rw [scanFraction_digit] at fraction
    obtain ⟨place, fractionMoved, ahead⟩ := fraction.exists_place
    have exponent := ahead.exponent
    rw [scanExponent_digit] at exponent
    obtain ⟨last, exponentMoved, ahead⟩ := exponent.exists_place
    refine .inr ⟨?_, last, ?_, fun ended => ?_⟩
    · simp only [refused, bind, Option.bind]
    · simp only [moved, fractionMoved, exponentMoved, bind, Option.bind]
    · exact absurd (ahead.eq_nil_iff.mp ended) (List.cons_ne_nil _ _)

theorem isLiteral_utf8Bytes (text : List Char) :
    isLiteral (utf8Bytes text) = (read? text).isSome := by
  have known := skipLiteral?_utf8Bytes text
  unfold isLiteral read?
  generalize skipLiteral? (utf8Bytes text) = skipped at known
  generalize scan text = read at known
  rcases known with follows | ⟨rfl, last, rfl, inside⟩
  · cases follows with
    | refused => rfl
    | @moved place rest part behind =>
      rw [Option.some_beq_some, Bool.eq_iff_iff, beq_iff_eq, behind.eq_nil_iff]
      cases rest <;> simp
  · rw [Option.some_beq_some, beq_eq_false_iff_ne.mpr inside]
    rfl

/-- The recognizer accepts the literals of the grammar and nothing else. -/
theorem recognizes_iff {text : String} :
    recognizes text = true ↔ ∃ number, Spelled text.toList number := by
  rw [recognizes, toUTF8_toList, isLiteral_utf8Bytes, Option.isSome_iff_exists]
  exact exists_congr fun _ => read?_eq_some_iff

end JsonTree.Number
