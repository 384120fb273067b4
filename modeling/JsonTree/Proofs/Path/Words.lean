import Mathlib.Data.List.TakeWhile
import Mathlib.Tactic.Tauto
import JsonTree.Path.Parser
import JsonTree.Proofs.Path.Grammar

/-! Reading white space, names, quoted texts and indices.

A reader of a run stops where the grammar says that the run ends, so what it takes is
derived and what is derived is taken. The same holds of a quoted text up to its quote.
-/

set_option autoImplicit false

namespace JsonTree.Path

theorem span_run {belongs : Char → Bool} {run rest : List Char}
    (inside : ∀ c ∈ run, belongs c = true) (stop : ∀ c ∈ rest.head?, belongs c = false) :
    (run ++ rest).takeWhile belongs = run ∧ (run ++ rest).dropWhile belongs = rest := by
  rw [List.takeWhile_append_of_pos inside, List.dropWhile_append_of_pos inside]
  cases rest with
  | nil => simp
  | cons c tail => simp [stop c rfl]

theorem head?_dropWhile {belongs : Char → Bool} {text : List Char} :
    ∀ c ∈ (text.dropWhile belongs).head?, belongs c = false := by
  intro c front
  have stop := List.head?_dropWhile_not belongs text
  rw [Option.mem_def.mp front] at stop
  exact stop

theorem blanks_skipBlank (text : List Char) :
    ∃ blanks, Blanks blanks ∧ blanks ++ skipBlank text = text :=
  ⟨text.takeWhile isWhitespace, fun _ member => List.mem_takeWhile_imp member,
    List.takeWhile_append_dropWhile⟩

theorem skipBlank_append {blanks : List Char} (blank : Blanks blanks) {c : Char}
    (solid : isWhitespace c = false) (tail : List Char) :
    skipBlank (blanks ++ c :: tail) = c :: tail := by
  have stop : ∀ d ∈ (c :: tail).head?, isWhitespace d = false := by
    rintro _ ⟨⟩
    exact solid
  exact (span_run blank stop).2

theorem skipBlank_blanks {blanks : List Char} (blank : Blanks blanks) : skipBlank blanks = [] := by
  have stop : ∀ c ∈ ([] : List Char).head?, isWhitespace c = false := by simp
  have skipped := (span_run blank stop).2
  rwa [List.append_nil] at skipped

theorem scanName_chars {text name rest : List Char} (read : scanName text = .ok (name, rest)) :
    (∀ c ∈ name, c ∉ ['.', '[', ']', '\'', '"'] ∧ isWhitespace c = false)
      ∧ ∀ c ∈ rest.head?, c = '.' ∨ c = '[' := by
  fun_induction scanName text generalizing name with
  | case1 =>
    obtain ⟨rfl, rfl⟩ := Prod.mk.inj (Except.ok.inj read)
    simp
  | case2 c tail stop =>
    obtain ⟨rfl, rfl⟩ := Prod.mk.inj (Except.ok.inj read)
    simpa using stop
  | case3 => contradiction
  | case4 => contradiction
  | case5 c tail noStop noMark noBlank ih =>
    obtain ⟨more, inner, rfl⟩ := (map_eq_ok_iff _).mp read
    obtain ⟨chars, longest⟩ := ih inner
    refine ⟨List.forall_mem_cons.mpr ⟨⟨?_, by simpa using noBlank⟩, chars⟩, longest⟩
    simp only [List.mem_cons, List.not_mem_nil, or_false]
    tauto

theorem scanName_run {name rest : List Char}
    (chars : ∀ c ∈ name, c ∉ ['.', '[', ']', '\'', '"'] ∧ isWhitespace c = false)
    (longest : ∀ c ∈ rest.head?, c = '.' ∨ c = '[') :
    scanName (name ++ rest) = .ok (name, rest) := by
  induction name with
  | nil =>
    cases rest with
    | nil => rfl
    | cons c tail => rw [List.nil_append, scanName, if_pos (longest c rfl)]
  | cons c name ih =>
    obtain ⟨⟨mark, blank⟩, others⟩ := List.forall_mem_cons.mp chars
    simp only [List.mem_cons, List.not_mem_nil, or_false, not_or] at mark
    rw [List.cons_append, scanName, if_neg (by tauto), if_neg (by tauto), if_neg (by simp [blank]),
      ih others]
    rfl

theorem name_of_readName {text rest : List Char} {name : String}
    (noStar : text.head? ≠ some '*') (read : readName text = .ok (name, rest)) :
    Name text name rest := by
  obtain ⟨split, nonempty⟩ := readName_suffix read
  unfold readName at read
  split at read
  · contradiction
  · contradiction
  · next content left _ scanned =>
    obtain ⟨rfl, rfl⟩ := Prod.mk.inj (Except.ok.inj read)
    obtain ⟨chars, longest⟩ := scanName_chars scanned
    rw [String.toList_ofList] at split nonempty
    refine ⟨by rwa [String.toList_ofList], by rwa [String.toList_ofList], ?_, ?_, longest⟩
    · rw [String.toList_ofList]
      intro star
      exact noStar (by rw [split, List.head?_append, star, Option.some_or])
    · rwa [String.toList_ofList]

theorem Name.read {text rest : List Char} {name : String} (derived : Name text name rest) :
    readName text = .ok (name, rest) := by
  have scanned := scanName_run derived.chars derived.longest
  rw [← derived.split] at scanned
  unfold readName
  rw [scanned]
  split
  · contradiction
  · next empty =>
    exact absurd (Prod.mk.inj (Except.ok.inj empty)).1 derived.nonempty
  · next same =>
    obtain ⟨rfl, rfl⟩ := Prod.mk.inj (Except.ok.inj same)
    rw [String.ofList_toList]

theorem Name.front {text rest : List Char} {name : String} (derived : Name text name rest) :
    ∃ c tail, text = c :: tail ∧ c ≠ '.' ∧ c ≠ '[' ∧ c ≠ '*' := by
  obtain ⟨c, more, spelled⟩ := List.exists_cons_of_ne_nil derived.nonempty
  have mark := (derived.chars c (by simp [spelled])).1
  have noStar := derived.noStar
  rw [spelled] at noStar
  refine ⟨c, more ++ rest, by rw [derived.split, spelled, List.cons_append], ?_⟩
  simp_all

theorem isQuote_iff {c : Char} : isQuote c = true ↔ c = '\'' ∨ c = '"' := by
  simp [isQuote]

theorem quote_distinct {c : Char} (mark : isQuote c = true) :
    isWhitespace c = false ∧ c ≠ '\\' ∧ c ≠ ')' ∧ c ≠ '*' ∧ c ≠ '?' := by
  rcases isQuote_iff.mp mark with rfl | rfl <;> decide

theorem escaped_of_scanQuoted {quote : Char} {text content rest : List Char}
    (read : scanQuoted quote text = some (content, rest)) :
    ∃ inner, Escaped quote inner content ∧ text = inner ++ quote :: rest := by
  fun_induction scanQuoted quote text generalizing content with
  | case1 => contradiction
  | case2 => contradiction
  | case3 c tail ih =>
    simp only [Option.map_eq_some_iff] at read
    obtain ⟨⟨more, left⟩, scanned, result⟩ := read
    obtain ⟨rfl, rfl⟩ := Prod.mk.inj result
    obtain ⟨inner, escaped, rfl⟩ := ih scanned
    exact ⟨_, .literal c escaped, rfl⟩
  | case4 tail =>
    obtain ⟨rfl, rfl⟩ := Prod.mk.inj (Option.some.inj read)
    exact ⟨[], .nil, rfl⟩
  | case5 c tail noEnd noBackslash differ ih =>
    simp only [Option.map_eq_some_iff] at read
    obtain ⟨⟨more, left⟩, scanned, result⟩ := read
    obtain ⟨rfl, rfl⟩ := Prod.mk.inj result
    obtain ⟨inner, escaped, rfl⟩ := ih scanned
    -- A backslash with a character behind it has been read as an escape.
    refine ⟨_, .plain ?_ differ escaped, rfl⟩
    rintro rfl
    cases inner with
    | nil => exact noBackslash _ _ rfl rfl
    | cons next inner => exact noBackslash _ _ rfl rfl

theorem scanQuoted_escaped {quote : Char} (mark : quote ≠ '\\') {inner content : List Char}
    (escaped : Escaped quote inner content) (rest : List Char) :
    scanQuoted quote (inner ++ quote :: rest) = some (content, rest) := by
  induction escaped with
  | nil =>
    rw [List.nil_append, scanQuoted.eq_4, if_pos rfl]
    · exact fun same => absurd same mark
    · exact fun _ _ same => absurd same mark
  | literal c _ ih => rw [List.cons_append, List.cons_append, scanQuoted, ih]; rfl
  | plain backslash differ _ ih =>
    rw [List.cons_append, scanQuoted.eq_4, if_neg differ, ih]
    · rfl
    · exact fun same => absurd same backslash
    · exact fun _ _ same => absurd same backslash

theorem quoted_of_readQuoted {quote : Char} (mark : isQuote quote = true) {tail rest : List Char}
    {content : String} (read : readQuoted (quote :: tail) = .ok (content, rest)) :
    Quoted (quote :: tail) content rest := by
  simp only [readQuoted] at read
  split at read
  · next scanned =>
    obtain ⟨rfl, rfl⟩ := Prod.mk.inj (Except.ok.inj read)
    obtain ⟨inner, escaped, rfl⟩ := escaped_of_scanQuoted scanned
    exact .text _ (isQuote_iff.mp mark) escaped
  · contradiction

theorem Quoted.read {text rest : List Char} {content : String}
    (derived : Quoted text content rest) : readQuoted text = .ok (content, rest) := by
  cases derived with
  | text rest mark escaped =>
    obtain ⟨-, noBackslash, -⟩ := quote_distinct (isQuote_iff.mpr mark)
    rw [readQuoted, scanQuoted_escaped noBackslash escaped]

theorem Quoted.front {text rest : List Char} {content : String}
    (derived : Quoted text content rest) : ∃ c tail, text = c :: tail ∧ isQuote c = true := by
  cases derived with
  | text rest mark escaped => exact ⟨_, _, rfl, isQuote_iff.mpr mark⟩

theorem index_of_readIndex {text rest : List Char} {position : Int}
    (read : readIndex text = .ok (position, rest)) : Index text position rest := by
  have sign := Number.scanSign_split text
  have taken := Digit.chars_scan (Number.scanSign text).2
  have stop := Number.noDigit_scan (Number.scanSign text).2
  unfold readIndex at read
  split at read
  · contradiction
  · next digits left nonempty scanned =>
    obtain ⟨rfl, rfl⟩ := Prod.mk.inj (Except.ok.inj read)
    rw [scanned] at taken stop
    have some : digits ≠ [] := fun empty => nonempty (by rw [empty])
    have derived := Index.digits (Number.scanSign text).1 some stop
    rwa [List.append_assoc, taken, sign] at derived

theorem chars_ne_minus {digits : List Digit} (nonempty : digits ≠ []) (rest tail : List Char) :
    Digit.chars digits ++ rest ≠ '-' :: tail := by
  obtain ⟨first, more, rfl⟩ := List.exists_cons_of_ne_nil nonempty
  exact fun same => first.toChar_ne_minus (List.cons.inj same).1

theorem Index.read {text rest : List Char} {position : Int} (derived : Index text position rest) :
    readIndex text = .ok (position, rest) := by
  cases derived with
  | @digits negative digits _ nonempty stop =>
    have sign := Number.scanSign_chars (chars_ne_minus nonempty rest) ⟨negative, 0, [], none⟩
    have whole := Digit.scan_chars digits rest stop
    rw [Number.signChars] at sign
    unfold readIndex
    rw [List.append_assoc, sign, whole]
    split
    · next empty => exact absurd (Prod.mk.inj empty).1 nonempty
    · next same =>
      obtain ⟨rfl, rfl⟩ := Prod.mk.inj same
      rfl

theorem Index.front {text rest : List Char} {position : Int} (derived : Index text position rest) :
    ∃ c tail, text = c :: tail ∧ (c = '-' ∨ ∃ digit : Digit, c = digit.toChar) := by
  cases derived with
  | digits negative nonempty stop =>
    cases negative with
    | true => exact ⟨_, _, rfl, .inl rfl⟩
    | false =>
      obtain ⟨first, more, rfl⟩ := List.exists_cons_of_ne_nil nonempty
      exact ⟨_, _, rfl, .inr ⟨first, rfl⟩⟩

theorem start_distinct {c : Char} (start : c = '-' ∨ ∃ digit : Digit, c = digit.toChar) :
    isQuote c = false ∧ isWhitespace c = false ∧ c ∉ ['t', 'f', 'n', '*', '?'] := by
  rcases start with rfl | ⟨digit, rfl⟩
  · decide
  · revert digit
    decide

end JsonTree.Path
