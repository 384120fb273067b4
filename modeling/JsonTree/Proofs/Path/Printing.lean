import JsonTree.Proofs.Path.Recognition
import JsonTree.Proofs.Related

/-! The canonical text of a path is read back.

The text of every selector is derived by the grammar, in front of whatever the text of the
next one begins with. A name behind a point or behind `..` ends there, since no printed
selector begins with what a name may hold.
-/

set_option autoImplicit false

namespace JsonTree

/-- A character that neither opens or closes a parenthesis nor begins a quoted text. -/
def Path.EnclosedChar (c : Char) : Prop := c ∉ ['(', ')', '\'', '"']

instance : DecidablePred Path.EnclosedChar := fun c =>
  inferInstanceAs (Decidable (c ∉ ['(', ')', '\'', '"']))

def FieldSpelled (name : String) : Prop :=
  name.toList ≠ [] ∧ ∀ c ∈ name.toList, Path.FieldChar c

def FieldName (name : String) : Prop :=
  name.toList ≠ [] ∧ ∀ c ∈ name.toList, Path.FieldChar c ∧ Path.EnclosedChar c

-- Only the characters of the name are looked at.
instance : DecidablePred FieldName := fun name =>
  @instDecidableAnd _ _ inferInstance (List.decidableBAll _ name.toList)

theorem FieldName.spelled {name : String} (plain : FieldName name) : FieldSpelled name :=
  ⟨plain.1, fun c member => (plain.2 c member).1⟩

/-- A selector that can be read from some text: an index of 64 bits, and a filter of fields. -/
def Selector.Spelled : Selector → Prop
  | .index position => leastInt64 ≤ position ∧ position ≤ greatestInt64
  | .filter condition => condition.field ≠ [] ∧ ∀ name ∈ condition.field, FieldSpelled name
  | _ => True

/-- The text of a filter ends where its parentheses say, quoted parts taken as a whole. -/
def Selector.Reenclosed : Selector → Prop
  | .filter condition => Path.Enclosed 0 condition.chars
  | _ => True

/-- A selector whose text says what it is: an index of 64 bits, and a filter of fields that
need no quotes. A member name may be any text. -/
def Selector.Printable : Selector → Prop
  | .index position => leastInt64 ≤ position ∧ position ≤ greatestInt64
  | .filter condition => condition.field ≠ [] ∧ ∀ name ∈ condition.field, FieldName name
  | _ => True

instance : DecidablePred Selector.Printable
  | .index _ | .filter _ => inferInstanceAs (Decidable (_ ∧ _))
  | .property _ | .wildcard | .descent => .isTrue trivial

def Selector.reprinted : Selector → Selector
  | .filter condition => .filter { condition with raw := String.ofList condition.chars }
  | selector => selector

namespace Path

theorem isWhitespace_of_isAlphanumeric {c : Char} (letter : isAlphanumeric c = true) :
    isWhitespace c = false := by
  have apart : ∀ range ∈ whitespaceRanges, ∀ place < range.2 + 1 - range.1,
      alphanumericRanges.holds (range.1 + place) = false := by decide +kernel
  cases blank : isWhitespace c with
  | false => rfl
  | true =>
    obtain ⟨range, member, lower, upper⟩ := CharRanges.exists_of_holds blank
    have other := apart range member (c.toNat - range.1) (by omega)
    rw [Nat.add_sub_cancel' lower, ← isAlphanumeric, letter] at other
    exact absurd other (by decide)

theorem isPlain_solid {c : Char} (plain : isPlain c = true) :
    c ∉ ['.', '[', ']', '\'', '"', '*'] ∧ isWhitespace c = false := by
  have marks : ∀ mark ∈ ['.', '[', ']', '\'', '"', '*'], isPlain mark = false :=
    forall_of_all (by decide +kernel)
  refine ⟨fun mark => ?_, ?_⟩
  · rw [marks c mark] at plain
    contradiction
  · simp only [isPlain, Bool.or_eq_true, beq_iff_eq] at plain
    rcases plain with ((letter | rfl) | rfl) | rfl
    · exact isWhitespace_of_isAlphanumeric letter
    all_goals decide

theorem name_of_isPlainName {name : String} (plain : isPlainName name.toList = true)
    {rest : List Char} (bound : ∀ c ∈ rest.head?, c = '.' ∨ c = '[') :
    Name (name.toList ++ rest) name rest := by
  simp only [isPlainName, Bool.and_eq_true, Bool.not_eq_true', List.isEmpty_eq_false_iff,
    List.all_eq_true] at plain
  obtain ⟨nonempty, chars⟩ := plain
  refine ⟨rfl, nonempty, fun star => ?_, fun c member => ?_, bound⟩
  · exact (isPlain_solid (chars '*' (List.mem_of_head? star))).1 (by decide)
  · obtain ⟨marks, solid⟩ := isPlain_solid (chars c member)
    refine ⟨fun mark => marks ?_, solid⟩
    simp only [List.mem_cons] at mark ⊢
    tauto

theorem escaped_flatMap (content : List Char) :
    Escaped '\'' (content.flatMap escapeQuoted) content := by
  induction content with
  | nil => exact .nil
  | cons c content ih =>
    rw [List.flatMap_cons, escapeQuoted]
    split
    · exact .literal c ih
    · next plain =>
      rw [not_or] at plain
      exact .plain plain.1 plain.2 ih

theorem quoted_quotedChars (content : String) (rest : List Char) :
    Quoted (quotedChars content.toList ++ rest) content rest := by
  have derived := Quoted.text rest (.inl rfl) (escaped_flatMap content.toList)
  rw [String.ofList_toList] at derived
  simpa [quotedChars] using derived

theorem index_intChars {position : Int} (lower : leastInt64 ≤ position)
    (upper : position ≤ greatestInt64) {rest : List Char} (stop : NoDigit rest) :
    Index (intChars position ++ rest) position rest := by
  have derived := Index.digits (decide (position < 0)) (Digit.ofNat_ne_nil position.natAbs) stop
  rw [Digit.value_ofNat] at derived
  unfold intChars natChars
  by_cases negative : position < 0
  · have value : -(position.natAbs : Int) = position := by omega
    simp only [negative, decide_true, if_true, value, saturate_of_mem lower upper] at derived ⊢
    exact derived
  · have value : (position.natAbs : Int) = position := by omega
    simp only [negative, decide_false, Bool.false_eq_true, if_false, value,
      saturate_of_mem lower upper] at derived ⊢
    exact derived

theorem fields_fieldChars {names : List String} (nonempty : names ≠ [])
    (spelled : ∀ name ∈ names, FieldSpelled name) {rest : List Char}
    (stop : ∀ c ∈ rest.head?, ¬ FieldChar c) (noPoint : rest.head? ≠ some '.') :
    Fields (fieldChars names ++ rest) names rest := by
  induction names with
  | nil => contradiction
  | cons name names ih =>
    obtain ⟨first, others⟩ := List.forall_mem_cons.mp spelled
    have split : fieldChars (name :: names) ++ rest
        = '.' :: (name.toList ++ (fieldChars names ++ rest)) := by simp [fieldChars]
    rw [split]
    cases names with
    | nil => exact .last first.1 first.2 stop noPoint
    | cons next names => exact .more first.1 first.2 (ih (List.cons_ne_nil _ _) others)

theorem enclosed_append {depth : Nat} {front back : List Char}
    (plain : ∀ c ∈ front, EnclosedChar c) (enclosed : Enclosed depth back) :
    Enclosed depth (front ++ back) := by
  induction front with
  | nil => exact enclosed
  | cons c front ih =>
    obtain ⟨first, others⟩ := List.forall_mem_cons.mp plain
    exact .plain first (ih others)

theorem word_chars {literal : Literal} (noString : ∀ content, literal ≠ .string content) :
    Word literal.chars literal
      ∧ ∀ c ∈ literal.chars, isWhitespace c = false ∧ EnclosedChar c := by
  cases literal with
  | string content => exact absurd rfl (noString content)
  | null => exact ⟨.null, forall_of_all (by decide)⟩
  | bool flag =>
    cases flag with
    | true => exact ⟨.yes, forall_of_all (by decide)⟩
    | false => exact ⟨.no, forall_of_all (by decide)⟩
  | number value =>
    have marks : ∀ c ∈ ['-', '+', '.', 'e', 'E'], isWhitespace c = false ∧ EnclosedChar c :=
      forall_of_all (by decide)
    have digits : ∀ digit : Digit, isWhitespace digit.toChar = false
        ∧ EnclosedChar digit.toChar := by decide
    exact ⟨.number value.spelled_chars, value.spelled_chars.forall_mem digits marks⟩

theorem literal_chars (literal : Literal) :
    Constant literal.chars literal [] ∧ Enclosed 0 literal.chars := by
  by_cases string : ∃ content, literal = .string content
  · obtain ⟨content, rfl⟩ := string
    have quoted := quoted_quotedChars content []
    rw [List.append_nil] at quoted
    exact ⟨.string quoted, .quoted quoted .nil⟩
  · obtain ⟨word, chars⟩ := word_chars fun content same => string ⟨content, same⟩
    have constant : Constant (literal.chars ++ []) literal [] :=
      .word word (fun c member => (chars c member).1) (by simp)
    have enclosed := enclosed_append (fun c member => (chars c member).2) .nil
    rw [List.append_nil] at constant enclosed
    exact ⟨constant, enclosed⟩

theorem readComparator_chars (comparator : Comparator) (tail : List Char) :
    readComparator (comparator.chars ++ ' ' :: tail) = .ok (comparator, ' ' :: tail) := by
  cases comparator <;> rfl

theorem comparator_enclosed (comparator : Comparator) : ∀ c ∈ comparator.chars, EnclosedChar c := by
  cases comparator <;> exact forall_of_all (by decide)

theorem blanks_nil : Blanks [] := by simp [Blanks]

theorem blanks_space : Blanks [' '] := by
  rintro _ (_ | ⟨_, ⟨⟩⟩)
  decide

theorem filter_chars {condition : Filter} (nonempty : condition.field ≠ []) :
    condition.chars = '@' :: (fieldChars condition.field
      ++ ([' '] ++ (condition.comparator.chars ++ ([' '] ++ condition.literal.chars)))) := by
  have some : condition.field.isEmpty = false := List.isEmpty_eq_false_iff.mpr nonempty
  simp [Filter.chars, some]

theorem enclosed_behind_field (comparator : Comparator) (literal : Literal) :
    Enclosed 0 ([' '] ++ (comparator.chars ++ ([' '] ++ literal.chars))) := by
  have blank : ∀ c ∈ [' '], EnclosedChar c := forall_of_all (by decide)
  exact enclosed_append blank (enclosed_append (comparator_enclosed comparator)
    (enclosed_append blank (literal_chars literal).2))

theorem enclosed_filter {condition : Filter} (nonempty : condition.field ≠ [])
    (names : ∀ name ∈ condition.field, FieldName name) : Enclosed 0 condition.chars := by
  have fields : ∀ c ∈ fieldChars condition.field, EnclosedChar c := by
    intro c member
    obtain ⟨name, field, inside⟩ := List.mem_flatMap.mp member
    rcases List.mem_cons.mp inside with rfl | inside
    · decide
    · exact ((names name field).2 c inside).2
  rw [filter_chars nonempty]
  exact .plain (by decide) (enclosed_append fields (enclosed_behind_field _ _))

theorem comparison_chars {condition : Filter} (nonempty : condition.field ≠ [])
    (names : ∀ name ∈ condition.field, FieldSpelled name) :
    Comparison condition.chars { condition with raw := String.ofList condition.chars } := by
  have stop : ∀ c ∈ [' '].head?, ¬ FieldChar c := by
    rintro _ ⟨⟩
    exact fun field => absurd field.1 (by decide)
  have compares : Operator (condition.comparator.chars ++ ([' '] ++ condition.literal.chars))
      condition.comparator ([' '] ++ condition.literal.chars) :=
    operator_of_readComparator (readComparator_chars _ _)
  have fields : Fields (fieldChars condition.field
      ++ ([' '] ++ (condition.comparator.chars ++ ([' '] ++ condition.literal.chars))))
      condition.field
      ([' '] ++ (condition.comparator.chars ++ ([' '] ++ condition.literal.chars))) :=
    fields_fieldChars nonempty names stop (by simp)
  have derived := Comparison.parts blanks_nil fields blanks_space compares blanks_space
    (literal_chars condition.literal).1 blanks_nil
  rw [filter_chars nonempty]
  exact derived

theorem bracket_alone {content : List Char} {selector : Selector} {rest : List Char}
    (derived : Bracket (content ++ ']' :: rest) selector (']' :: rest)) :
    Segment ('[' :: (content ++ [']']) ++ rest) [selector] rest := by
  have segment : Segment ('[' :: ([] ++ (content ++ ']' :: rest))) [selector] rest :=
    .bracket blanks_nil derived blanks_nil
  simpa using segment

/-- A printable filter has no quotes and parentheses but those around and in its literal. -/
theorem derivable_of_printable {selector : Selector} (printable : selector.Printable) :
    selector.Spelled ∧ selector.Reenclosed := by
  cases selector with
  | filter condition =>
    obtain ⟨nonempty, names⟩ := printable
    exact ⟨⟨nonempty, fun name member => (names name member).spelled⟩,
      enclosed_filter nonempty names⟩
  | index position => exact ⟨printable, trivial⟩
  | property | wildcard | descent => exact ⟨trivial, trivial⟩

theorem segment_chars {selector : Selector} (spelled : selector.Spelled)
    (enclosed : selector.Reenclosed) (noDescent : selector ≠ .descent) {rest : List Char}
    (bound : ∀ c ∈ rest.head?, c = '.' ∨ c = '[') :
    Segment (selector.chars ++ rest) [selector.reprinted] rest := by
  cases selector with
  | descent => contradiction
  | wildcard => exact @bracket_alone ['*'] _ _ (.wildcard _)
  | property name =>
    rw [Selector.chars]
    split
    · next plain => exact .property (name_of_isPlainName plain bound)
    · exact bracket_alone (.property (quoted_quotedChars name _))
  | index position =>
    exact bracket_alone (.index (index_intChars spelled.1 spelled.2
      (noDigit_cons (by decide) _)))
  | filter condition =>
    obtain ⟨nonempty, names⟩ := spelled
    have derived : Bracket (('?' :: '(' :: condition.chars ++ [')']) ++ ']' :: rest)
        (Selector.filter condition).reprinted (']' :: rest) := by
      rw [List.append_assoc]
      exact .filter (']' :: rest) blanks_nil enclosed
        (comparison_chars nonempty names)
    simpa [Selector.chars] using bracket_alone derived

theorem head?_selectorsChars (selectors : List Selector) :
    ∀ c ∈ (selectorsChars false selectors).head?, c = '.' ∨ c = '[' := by
  cases selectors with
  | nil => simp [selectorsChars]
  | cons selector rest =>
    cases selector with
    | property name =>
      simp only [selectorsChars, Bool.false_and, Bool.false_eq_true, if_false, Selector.chars]
      split <;> simp
    | _ => simp [selectorsChars, Selector.chars]

theorem selectorsChars_cons {selector : Selector} (noDescent : selector ≠ .descent)
    (rest : List Selector) :
    selectorsChars false (selector :: rest) = selector.chars ++ selectorsChars false rest := by
  cases selector with
  | descent => contradiction
  | _ => rfl

/-- The printed selectors are derived, and behind a `..` as well. -/
theorem segments_of_derivable {selectors : List Selector}
    (derivable : ∀ selector ∈ selectors, selector.Spelled ∧ selector.Reenclosed) :
    Segments (selectorsChars false selectors) (selectors.map Selector.reprinted)
      ∧ Segments ('.' :: '.' :: selectorsChars true selectors)
        (.descent :: selectors.map Selector.reprinted) := by
  -- A `..` is printed alone and decides how the next one is, so both statements go together.
  induction selectors with
  | nil => exact ⟨.nil, .cons (.descent []) .nil⟩
  | cons selector selectors ih =>
    obtain ⟨⟨spelled, enclosed⟩, others⟩ := List.forall_mem_cons.mp derivable
    obtain ⟨plain, behind⟩ := ih others
    have bound := head?_selectorsChars selectors
    have alone : Segments (selectorsChars false (selector :: selectors))
        ((selector :: selectors).map Selector.reprinted) := by
      by_cases descent : selector = .descent
      · rw [descent]
        exact behind
      · rw [selectorsChars_cons descent]
        exact .cons (segment_chars spelled enclosed descent bound) plain
    refine ⟨alone, ?_⟩
    -- Only a plain name is written otherwise behind `..` than elsewhere.
    by_cases bare : ∃ name, selector = .property name ∧ isPlainName name.toList = true
    · obtain ⟨name, rfl, letters⟩ := bare
      have segment := Segment.descentTo (name_of_isPlainName letters bound)
      simpa [selectorsChars, letters] using .cons segment plain
    · have same : selectorsChars true (selector :: selectors)
          = selectorsChars false (selector :: selectors) := by
        cases selector with
        | property name => simp_all [selectorsChars]
        | _ => rfl
      rw [same]
      exact .cons (.descent _) alone

theorem segments_selectorsChars {selectors : List Selector}
    (printable : ∀ selector ∈ selectors, selector.Printable) :
    Segments (selectorsChars false selectors) (selectors.map Selector.reprinted)
      ∧ Segments ('.' :: '.' :: selectorsChars true selectors)
        (.descent :: selectors.map Selector.reprinted) :=
  segments_of_derivable fun selector member => derivable_of_printable (printable selector member)

/-- Reading the canonical text of a path gives its selectors back, every filter with its
printed text. -/
theorem parse_inverts_canonical (path : Path)
    (printable : ∀ selector ∈ path.selectors, selector.Printable) :
    parse path.canonical = .ok ⟨path.canonical, path.selectors.map Selector.reprinted⟩ := by
  refine parse_eq_ok_iff.mpr ⟨rfl, selectorsChars false path.selectors, ?_, ?_⟩
  · rw [canonical, String.toList_ofList, chars]
  · exact readSelectors_eq_ok_iff.mpr (segments_selectorsChars printable).1

theorem parse_inverts_canonical_escapes :
    let path : Path := ⟨"", [.descent, .property "a-b", .descent, .property "it's [x].\\",
      .property "", .index leastInt64, .wildcard, .descent, .descent,
      .filter ⟨"", ["a", "b*["], .atLeast, .string "x')(\\"⟩,
      .filter ⟨"", ["é"], .less, .number ⟨true, 0, [0], some ⟨true, 0, [7]⟩⟩⟩, .descent]⟩
    (∀ selector ∈ path.selectors, selector.Printable)
      ∧ path.canonical = "$..a-b..['it\\'s [x].\\\\']['']" ++ "[-9223372036854775808][*]...."
        ++ "[?(@.a.b*[ >= 'x\\')(\\\\')][?(@.é < -0.0e-07)].."
      ∧ parse path.canonical
        = .ok ⟨path.canonical, path.selectors.map Selector.reprinted⟩ := by
  intro path
  have printable : ∀ selector ∈ path.selectors, selector.Printable := by decide
  exact ⟨printable, by decide +kernel, parse_inverts_canonical path printable⟩

end Path

end JsonTree
