import JsonTree.Proofs.Number.Expression
import JsonTree.Proofs.Number.Recognition
import JsonTree.Proofs.Number.Spelling
import JsonTree.Proofs.Value.Foreign
import JsonTree.Proofs.Value.RoundTrip

/-! The document texts that are read as numbers.

They are the literals with blanks around them, and the objects of the reserved key, which hold a
literal as a string. So a text on its own is a number just when it is a document of that number
that has no blanks at its ends and is no such object.
-/

set_option autoImplicit false

namespace JsonTree

namespace Lexeme

theorem scanAll_eq_nil_iff {text : List Char} :
    scanAll text = some [] ↔ ∀ c ∈ text, isBlank c = true := by
  constructor
  · intro read
    induction text with
    | nil => exact List.forall_mem_nil _
    | cons c text ih =>
      by_cases blank : isBlank c = true
      · rw [scanAll_cons_blank blank] at read
        exact List.forall_mem_cons.mpr ⟨blank, ih read⟩
      · rw [scanAll, if_neg blank] at read
        split at read
        · contradiction
        · obtain ⟨lexemes, -, same⟩ := Option.map_eq_some_iff.mp read
          cases same
  · intro blank
    have nothing := scanAll_blanks blank []
    rw [List.append_nil] at nothing
    rw [nothing, scanAll]

theorem exists_next_of_scanAll {text : List Char} {lexeme : Lexeme} {lexemes : List Lexeme}
    (read : scanAll text = some (lexeme :: lexemes)) :
    ∃ blanks front rest, (∀ c ∈ blanks, isBlank c = true) ∧ text = blanks ++ front
      ∧ next? front = some (lexeme, rest) ∧ scanAll rest = some lexemes := by
  induction text with
  | nil => rw [scanAll] at read; cases read
  | cons c text ih =>
    by_cases blank : isBlank c = true
    · rw [scanAll_cons_blank blank] at read
      obtain ⟨blanks, front, rest, each, rfl, first, later⟩ := ih read
      exact ⟨c :: blanks, front, rest, List.forall_mem_cons.mpr ⟨blank, each⟩, rfl, first, later⟩
    · rw [scanAll, if_neg blank] at read
      split at read
      · contradiction
      · next other rest first =>
        obtain ⟨others, later, same⟩ := Option.map_eq_some_iff.mp read
        obtain ⟨rfl, rfl⟩ := List.cons.inj same
        exact ⟨[], _, rest, List.forall_mem_nil _, rfl, first, later⟩

theorem scanAll_eq_number_iff {text : List Char} {number : Number} :
    scanAll text = some [.number number]
      ↔ ∃ before written after, (∀ c ∈ before, isBlank c = true) ∧ (∀ c ∈ after, isBlank c = true)
        ∧ text = before ++ (written ++ after) ∧ Number.Spelled written number := by
  constructor
  · intro read
    obtain ⟨before, front, after, blank, rfl, first, nothing⟩ := exists_next_of_scanAll read
    obtain ⟨written, rfl, holds⟩ := holds_of_next? first
    exact ⟨before, written, after, blank, scanAll_eq_nil_iff.mp nothing, rfl, holds.literal⟩
  · rintro ⟨before, written, after, blank, ends, rfl, spelled⟩
    have delimited := delimited_append ends delimited_nil
    rw [List.append_nil] at delimited
    rw [scanAll_blanks blank]
    exact scanAll_number spelled delimited (scanAll_eq_nil_iff.mpr ends)

end Lexeme

def reservedLexemes (content : String) : List Lexeme :=
  [.beginObject, .string reservedKey, .colon, .string content, .endObject]

/-- A value read in an open container is a part of it, so the whole is a container. -/
theorem readInvariant_isContainer :
    Value.ReadInvariant (· ≠ []) fun opened value => opened = [] → value.isContainer = true where
  scalar inside _ outside := absurd outside inside
  emptyArray _ _ _ := rfl
  beginArray _ _ := List.cons_ne_nil _ _
  nextItem _ := List.cons_ne_nil _ _
  endArray _ _ := rfl
  emptyObject _ _ _ := rfl
  beginObject _ _ _ := List.cons_ne_nil _ _
  nextMember _ := List.cons_ne_nil _ _
  endObject _ _ := rfl

theorem isContainer_of_readValue {opened : List OpenContainer} {lexemes : List Lexeme}
    {whole : Value} (inside : opened ≠ [])
    (read : readValue opened lexemes = some whole) : whole.isContainer = true :=
  Value.done_of_readValue readInvariant_isContainer inside read rfl

theorem resume_nil_iff {value whole : Value} {lexemes : List Lexeme} :
    resume value [] lexemes = some whole ↔ lexemes = [] ∧ value = whole := by
  cases lexemes <;> simp [resume]

theorem readReserved_nil_iff {lexemes : List Lexeme} {number : Number} :
    readReserved [] lexemes = some (.number number)
      ↔ ∃ content, lexemes = [.string content, .endObject]
        ∧ Number.Spelled content.toList number := by
  constructor
  · intro read
    unfold readReserved at read
    split at read
    · next content rest =>
      split at read
      · next value literal =>
        obtain ⟨rfl, same⟩ := resume_nil_iff.mp read
        obtain rfl := Value.number.inj same
        exact ⟨content, rfl, Number.read?_eq_some_iff.mp literal⟩
      · contradiction
    · contradiction
  · rintro ⟨content, rfl, spelled⟩
    rw [readReserved, Number.read?_eq_some_iff.mpr spelled]
    rfl

theorem readValue_eq_number_iff {lexemes : List Lexeme} {number : Number} :
    readValue [] lexemes = some (.number number)
      ↔ lexemes = [.number number]
        ∨ ∃ content, lexemes = reservedLexemes content
          ∧ Number.Spelled content.toList number := by
  constructor
  · intro read
    unfold readValue at read
    split at read
    · cases (resume_nil_iff.mp read).2
    · cases (resume_nil_iff.mp read).2
    · cases (resume_nil_iff.mp read).2
    · obtain ⟨rfl, same⟩ := resume_nil_iff.mp read
      obtain rfl := Value.number.inj same
      exact .inl rfl
    · split at read
      · cases (resume_nil_iff.mp read).2
      · contradiction
    · split at read
      · cases isContainer_of_readValue (List.cons_ne_nil _ _) read
      · contradiction
    · split at read
      · cases (resume_nil_iff.mp read).2
      · contradiction
    -- An object is a number only by the reserved key; behind any other key a container is open.
    · split at read
      · split at read
        · next key rest _ same =>
          obtain ⟨content, rfl, spelled⟩ := readReserved_nil_iff.mp read
          exact .inr ⟨content, same ▸ rfl, spelled⟩
        · cases isContainer_of_readValue (List.cons_ne_nil _ _) read
      · contradiction
    · contradiction
  · rintro (rfl | ⟨content, rfl, spelled⟩)
    · rw [readValue, resume]
    · rw [reservedLexemes, readValue, if_pos (by decide), if_pos rfl]
      exact readReserved_nil_iff.mpr ⟨content, rfl, spelled⟩

/-- A document that spells a number as an object of the reserved key. -/
def ReservedForm (text : List Char) : Prop :=
  ∃ content, Lexeme.scanAll text = some (reservedLexemes content)

def Unpadded (text : List Char) : Prop :=
  (∀ c ∈ text.head?, isBlank c = false) ∧ ∀ c ∈ text.getLast?, isBlank c = false

theorem Unpadded.nil_of_append {before written after : List Char}
    (unpadded : Unpadded (before ++ (written ++ after)))
    (front : ∀ c ∈ before, isBlank c = true) (back : ∀ c ∈ after, isBlank c = true) :
    before = [] ∧ after = [] := by
  constructor
  · cases before with
    | nil => rfl
    | cons c before =>
      have solid := unpadded.1 c rfl
      rw [front c List.mem_cons_self] at solid
      contradiction
  · rcases List.eq_nil_or_concat after with rfl | ⟨others, c, rfl⟩
    · rfl
    · have solid := unpadded.2 c (by simp)
      rw [back c (by simp)] at solid
      contradiction

/-- The documents of a number are its literals among blanks and its reserved forms. -/
theorem Value.parse_eq_number_iff {text : String} {number : Number} :
    Value.parse text = .ok (.number number)
      ↔ (∃ before written after, (∀ c ∈ before, isBlank c = true) ∧ (∀ c ∈ after, isBlank c = true)
          ∧ text.toList = before ++ (written ++ after) ∧ Number.Spelled written number)
        ∨ ∃ content, Lexeme.scanAll text.toList = some (reservedLexemes content)
          ∧ Number.Spelled content.toList number := by
  rw [Value.parse_eq_ok_iff, Value.read?, Option.bind_eq_some_iff, ← Lexeme.scanAll_eq_number_iff]
  constructor
  · rintro ⟨lexemes, scanned, read⟩
    rcases readValue_eq_number_iff.mp read with rfl | ⟨content, rfl, spelled⟩
    · exact .inl scanned
    · exact .inr ⟨content, scanned, spelled⟩
  · rintro (scanned | ⟨content, scanned, spelled⟩)
    · exact ⟨_, scanned, readValue_eq_number_iff.mpr (.inl rfl)⟩
    · exact ⟨_, scanned, readValue_eq_number_iff.mpr (.inr ⟨content, rfl, spelled⟩)⟩

namespace Number

variable {text : List Char} {number : Number}

theorem Spelled.solid (spelled : Spelled text number) : ∀ c ∈ text, isBlank c = false := by
  have digits : ∀ digit : Digit, isBlank digit.toChar = false := by decide
  exact spelled.forall_mem digits (forall_of_all (by decide))

theorem Spelled.unpadded (spelled : Spelled text number) : Unpadded text :=
  ⟨fun c first => spelled.solid c (List.mem_of_mem_head? first),
    fun c last => spelled.solid c (List.mem_of_getLast? last)⟩

theorem Spelled.not_reservedForm (spelled : Spelled text number) : ¬ ReservedForm text := by
  rintro ⟨content, scanned⟩
  have single : Lexeme.scanAll text = some [.number number] :=
    Lexeme.scanAll_eq_number_iff.mpr
      ⟨[], text, [], List.forall_mem_nil _, List.forall_mem_nil _, by simp, spelled⟩
  rw [single] at scanned
  cases scanned

/-- The mantissa is kept as it is written, and of the exponent its parts. -/
def RespelledIn (number : Number) (text : List Char) : Prop :=
  ∃ mantissa written, text = mantissa ++ written ∧ SpelledExponent written number.exponent
    ∧ number.chars = mantissa ++ number.exponentChars

theorem Spelled.respelledIn (spelled : Spelled text number) : number.RespelledIn text := by
  cases spelled with
  | parts whole fraction exponent =>
    rw [whole.eq_natChars, fraction.eq_fractionChars]
    exact ⟨_, _, rfl, exponent, rfl⟩

/-- A text is a number by itself when it is a document of that number, without blanks around it
and without the reserved key. -/
theorem spelled_iff_document {text : String} :
    Spelled text.toList number
      ↔ Unpadded text.toList ∧ ¬ ReservedForm text.toList
        ∧ Value.parse text = .ok (.number number) := by
  constructor
  · intro spelled
    refine ⟨spelled.unpadded, spelled.not_reservedForm, Value.parse_eq_number_iff.mpr (.inl ?_)⟩
    exact ⟨[], _, [], List.forall_mem_nil _, List.forall_mem_nil _, by simp, spelled⟩
  · rintro ⟨unpadded, plain, read⟩
    rcases Value.parse_eq_number_iff.mp read with
      ⟨before, written, after, front, back, split, spelled⟩ | ⟨content, scanned, -⟩
    · rw [split] at unpadded
      obtain ⟨rfl, rfl⟩ := unpadded.nil_of_append front back
      rw [split, List.nil_append, List.append_nil]
      exact spelled
    · exact absurd ⟨content, scanned⟩ plain

end Number

namespace Number

variable {foreign : ForeignNumbers}

/-- The way through the other library respells a text twice, and ends at the same number. -/
theorem spelled_iff_foreign (lawful : foreign.RespellsLiterals) {text : List Char}
    {number : Number} :
    Spelled text number
      ↔ ∃ held, foreign.read? text = some held
        ∧ (ForeignValue.number held).toValue? = some (.number number) := by
  constructor
  · intro spelled
    obtain ⟨held, read⟩ := Option.isSome_iff_exists.mp ((lawful.reads text).mpr ⟨number, spelled⟩)
    refine ⟨held, read, ?_⟩
    rw [ForeignValue.toValue?, lawful.ofTrusted?_chars read, spelled.holds.trusted, Option.map_some]
  · rintro ⟨held, read, taken⟩
    obtain ⟨other, spelled⟩ := (lawful.reads text).mp (Option.isSome_iff_exists.mpr ⟨held, read⟩)
    rw [ForeignValue.toValue?, lawful.ofTrusted?_chars read, spelled.holds.trusted, Option.map_some]
      at taken
    obtain rfl := Value.number.inj (Option.some.inj taken)
    exact spelled

/-- The recognizer accepts the texts of the regular expression and nothing else. Those are the
texts that are read as numbers, and the documents of numbers without blanks around them and
without the reserved key. Every way from such a text, also the one through the other library,
gives the same number, and the number holds the text with its exponent respelled. -/
theorem literals_recognized (lawful : foreign.RespellsLiterals) (text : String) :
    (recognizes text = true ↔ text.toList ∈ Expression.literal.matches')
      ∧ ((∃ number, parse text = .ok number) ↔ text.toList ∈ Expression.literal.matches')
      ∧ ∀ number,
        (parse text = .ok number
          ↔ recognizes text = true ∧ ofTrusted? text.toList = some number)
        ∧ (parse text = .ok number
          ↔ Unpadded text.toList ∧ ¬ ReservedForm text.toList
            ∧ Value.parse text = .ok (.number number))
        ∧ (parse text = .ok number
          ↔ ∃ held, foreign.read? text.toList = some held
            ∧ (ForeignValue.number held).toValue? = some (.number number))
        ∧ (parse text = .ok number →
          number.chars = respell text.toList ∧ number.RespelledIn text.toList) := by
  have literal : text.toList ∈ Expression.literal.matches' ↔ ∃ number, Spelled text.toList number :=
    Expression.mem_literal
  refine ⟨recognizes_iff.trans literal.symm, ?_, fun number => ⟨?_, ?_, ?_, ?_⟩⟩
  · rw [literal]
    exact exists_congr fun _ => parse_eq_ok_iff
  · rw [parse_eq_ok_iff, recognizes_iff]
    constructor
    · exact fun spelled => ⟨⟨number, spelled⟩, spelled.holds.trusted⟩
    · rintro ⟨⟨other, spelled⟩, trusted⟩
      obtain rfl := Option.some.inj (spelled.holds.trusted.symm.trans trusted)
      exact spelled
  · exact parse_eq_ok_iff.trans spelled_iff_document
  · exact parse_eq_ok_iff.trans (spelled_iff_foreign lawful)
  · intro read
    have spelled := parse_eq_ok_iff.mp read
    exact ⟨spelled.respell.symm, spelled.respelledIn⟩

/-- A zero before the point and one behind it stay. A second leading zero, an exponent that breaks
off and digits of another script make no literal, and blanks make a document only. -/
theorem literals_recognized_respelled :
    let number : Number := ⟨true, 0, [5, 0], some ⟨false, 7, []⟩⟩
    ForeignNumbers.respelledTexts.RespellsLiterals
      ∧ recognizes "-0.50E7" = true ∧ "-0.50E7".toList ∈ Expression.literal.matches'
      ∧ parse "-0.50E7" = .ok number ∧ Value.parse "-0.50E7" = .ok (.number number)
      ∧ number.chars = "-0.50e+7".toList
      ∧ (∀ text ∈ ["-00.50E7", "-0.50E+", "٣", " 1"], recognizes text = false)
      ∧ Value.parse " 1" = .ok (.number (.ofInt 1)) := by
  intro number
  have lawful := ForeignNumbers.respellsLiterals_respelledTexts
  have parsed : parse "-0.50E7" = .ok number := by decide
  obtain ⟨accepted, literals, routes⟩ := literals_recognized lawful "-0.50E7"
  obtain ⟨-, document, -, kept⟩ := routes number
  have literal := literals.mp ⟨number, parsed⟩
  have padded : Value.parse " 1" = .ok (.number (.ofInt 1)) :=
    Value.parse_eq_number_iff.mpr
      (.inl ⟨[' '], ['1'], [], forall_of_all (by decide), List.forall_mem_nil _, by decide,
        read?_eq_some_iff.mp (by decide)⟩)
  refine ⟨lawful, accepted.mpr literal, literal, parsed, (document.mp parsed).2.2,
    (kept parsed).1.trans (by decide), fun text member => ?_, padded⟩
  have refused : ¬ ∃ number, parse text = .ok number := by
    simp only [List.mem_cons, List.not_mem_nil, or_false] at member
    rcases member with rfl | rfl | rfl | rfl <;> rintro ⟨_, read⟩ <;> cases read
  obtain ⟨same, iff, -⟩ := literals_recognized lawful text
  exact Bool.eq_false_iff.mpr fun accepted => refused (iff.mpr (same.mp accepted))

end Number

end JsonTree
