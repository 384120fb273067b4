import JsonTree.Number.Shortest
import JsonTree.Number.Spelling
import JsonTree.Proofs.Number.Grammar

/-! Numbers hold the canonical spelling of the texts that they are made from.

Respelling a literal gives the text of its number, so it changes no part of it: sign, digits and
exponent are those that were written, and with them the value.
-/

set_option autoImplicit false

namespace JsonTree.Number

/-- Wherever the letter of an exponent stands, it is a small one, with a sign behind it. -/
def Marked (text : List Char) : Prop :=
  ∀ front mark back, text = front ++ mark :: back → mark = 'e' ∨ mark = 'E' →
    mark = 'e' ∧ ∃ sign tail, back = sign :: tail ∧ (sign = '+' ∨ sign = '-')

/-- A number literal in the spelling that is kept. -/
structure Canonical (text : List Char) : Prop where
  valid : ∃ number, Spelled text number
  marked : Marked text

theorem isMark_iff {c : Char} : isMark c = true ↔ c = 'e' ∨ c = 'E' := by
  rw [isMark, Bool.or_eq_true, beq_iff_eq, beq_iff_eq]

def Unmarked (text : List Char) : Prop := ∀ c ∈ text, isMark c = false

section

variable {front back text : List Char} {c : Char}

theorem unmarked_append : Unmarked (front ++ back) ↔ Unmarked front ∧ Unmarked back :=
  List.forall_mem_append

theorem unmarked_cons : Unmarked (c :: text) ↔ isMark c = false ∧ Unmarked text :=
  List.forall_mem_cons

theorem unmarked_digits (digits : List Digit) : Unmarked (Digit.chars digits) :=
  Digit.forall_mem_chars (by decide) digits

theorem unmarked_mantissa (number : Number) :
    Unmarked (number.signChars ++ natChars number.whole ++ number.fractionChars) := by
  have sign : Unmarked number.signChars := by
    unfold signChars
    split
    · exact unmarked_cons.mpr ⟨by decide, List.forall_mem_nil _⟩
    · exact List.forall_mem_nil _
  have fraction : Unmarked number.fractionChars := by
    unfold fractionChars
    split
    · exact List.forall_mem_nil _
    · exact unmarked_cons.mpr ⟨by decide, unmarked_digits _⟩
  exact unmarked_append.mpr ⟨unmarked_append.mpr ⟨sign, unmarked_digits _⟩, fraction⟩

theorem Unmarked.marked (unmarked : Unmarked text) : Marked text := by
  rintro front mark back rfl letter
  have plain := unmarked mark (List.mem_append_right _ List.mem_cons_self)
  rw [isMark_iff.mpr letter] at plain
  contradiction

theorem marked_append (unmarked : Unmarked front) (marked : Marked back) :
    Marked (front ++ back) := by
  induction front with
  | nil => exact marked
  | cons c front ih =>
    obtain ⟨plain, others⟩ := unmarked_cons.mp unmarked
    -- The letter is not the first character, so it stands in the rest.
    intro before mark behind split letter
    cases before with
    | nil =>
      obtain ⟨rfl, -⟩ := List.cons.inj split
      rw [isMark_iff.mpr letter] at plain
      contradiction
    | cons first before => exact ih others before mark behind (List.cons.inj split).2 letter

theorem marked_exponent {sign : Char} (signed : sign = '+' ∨ sign = '-')
    (unmarked : Unmarked text) : Marked ('e' :: sign :: text) := by
  have plain : isMark sign = false := by rcases signed with rfl | rfl <;> decide
  intro front mark back split letter
  cases front with
  | nil =>
    obtain ⟨rfl, rfl⟩ := List.cons.inj split
    exact ⟨rfl, sign, text, rfl, signed⟩
  | cons first front =>
    have rest := (List.cons.inj split).2
    exact (unmarked_cons.mpr ⟨plain, unmarked⟩).marked front mark back rest letter

theorem canonical_chars (number : Number) : Canonical number.chars := by
  refine ⟨⟨number, number.spelled_chars⟩, marked_append number.unmarked_mantissa ?_⟩
  unfold exponentChars
  cases number.exponent with
  | none => exact Unmarked.marked (List.forall_mem_nil _)
  | some exponent =>
    refine marked_exponent ?_ (unmarked_digits exponent.digits)
    cases exponent.negative <;> simp

theorem withSign_withSign (text : List Char) : withSign (withSign text) = withSign text := by
  cases text with
  | nil => rfl
  | cons c rest =>
    by_cases signed : c = '+' ∨ c = '-'
    · rw [withSign, if_pos signed, withSign, if_pos signed]
    · rw [withSign, if_neg signed]
      rfl

theorem respell_cons_mark (letter : isMark c = true) (text : List Char) :
    respell (c :: text) = 'e' :: withSign text := by
  rw [respell, if_pos letter]

theorem respell_append (unmarked : Unmarked front) (back : List Char) :
    respell (front ++ back) = front ++ respell back := by
  induction front with
  | nil => rfl
  | cons c front ih =>
    obtain ⟨plain, others⟩ := unmarked_cons.mp unmarked
    rw [List.cons_append, respell, if_neg (by simp [plain]), ih others, List.cons_append]

theorem Marked.respell (marked : Marked text) : Number.respell text = text := by
  induction text with
  | nil => rfl
  | cons c text ih =>
    have rest : Marked text := fun front mark back split letter =>
      marked (c :: front) mark back (split ▸ rfl) letter
    cases letter : isMark c with
    | true =>
      obtain ⟨rfl, sign, tail, rfl, signed⟩ := marked [] c text rfl (isMark_iff.mp letter)
      rw [respell_cons_mark letter, withSign, if_pos signed]
    | false => rw [Number.respell, if_neg (by simp [letter]), ih rest]

theorem respell_respell (text : List Char) : respell (respell text) = respell text := by
  induction text with
  | nil => rfl
  | cons c text ih =>
    cases letter : isMark c with
    | true => rw [respell_cons_mark letter, respell_cons_mark (by decide), withSign_withSign]
    | false =>
      have plain : ¬ isMark c = true := by simp [letter]
      rw [respell, if_neg plain, respell, if_neg plain, ih]

end

theorem withSign_spelled {sign : List Char} {negative : Bool} (spelled : SpelledSign sign negative)
    (first : Digit) (more : List Digit) :
    withSign (sign ++ Digit.chars (first :: more))
      = (if negative then '-' else '+') :: Digit.chars (first :: more) := by
  cases spelled with
  | absent =>
    have unsigned : ∀ digit : Digit, ¬ (digit.toChar = '+' ∨ digit.toChar = '-') := by decide
    exact if_neg (unsigned first)
  | plus => rfl
  | minus => rfl

theorem SpelledExponent.respell {text : List Char} {number : Number}
    (spelled : SpelledExponent text number.exponent) :
    Number.respell text = number.exponentChars := by
  unfold exponentChars
  generalize number.exponent = power at spelled
  cases spelled with
  | absent => rfl
  | power first more letter sign =>
    rw [respell_cons_mark (isMark_iff.mpr letter), withSign_spelled sign]
    rfl

/-- A literal is respelled as the text of its number. -/
theorem Spelled.respell {text : List Char} {number : Number} (spelled : Spelled text number) :
    Number.respell text = number.chars := by
  cases spelled with
  | parts whole fraction exponent =>
    rw [whole.eq_natChars, fraction.eq_fractionChars, respell_append number.unmarked_mantissa,
      exponent.respell]
    rfl

/-- A number that was made from a text. What it holds is another text of the same parts, that
is, of the same sign, the same digits in front of the exponent and in it, and the same value. -/
structure Holds (number : Number) (text : List Char) : Prop where
  literal : Spelled text number
  respelled : number.chars = respell text
  canonical : Canonical number.chars
  reread : Spelled number.chars number
  trusted : ofTrusted? text = some number

theorem Spelled.holds {text : List Char} {number : Number} (spelled : Spelled text number) :
    number.Holds text where
  literal := spelled
  respelled := spelled.respell.symm
  canonical := number.canonical_chars
  reread := number.spelled_chars
  trusted := by rw [ofTrusted?, spelled.respell, read?_eq_some_iff]; exact number.spelled_chars

theorem holds_of_parse {text : String} {number : Number} (read : parse text = .ok number) :
    number.Holds text.toList :=
  (parse_eq_ok_iff.mp read).holds

theorem chars_ofInt (value : Int) : (ofInt value).chars = intChars value := by
  unfold chars signChars fractionChars exponentChars intChars ofInt
  by_cases negative : value < 0 <;> simp [negative]

theorem holds_ofInt (value : Int) : (ofInt value).Holds (intChars value) := by
  rw [← chars_ofInt]
  exact (ofInt value).spelled_chars.holds

theorem Spelled.chars_of_plain {text : List Char} {number : Number} (spelled : Spelled text number)
    (plain : number.exponent = none) : number.chars = text := by
  cases spelled with
  | parts whole fraction exponent =>
    rw [plain] at exponent
    cases exponent with
    | absent =>
      rw [whole.eq_natChars, fraction.eq_fractionChars, chars, exponentChars, plain]

theorem ofBinary64?_finite (negative : Bool) (units : Nat) :
    ∃ number, ofBinary64? (.finite negative units) = some number ∧ number.exponent = none := by
  by_cases zero : units = 0
  · exact ⟨_, if_pos zero, rfl⟩
  · refine ⟨_, if_neg zero, ?_⟩
    unfold positional
    split <;> rfl

end JsonTree.Number
