import JsonTree.Proofs.Path.Words

/-! Reading filters.

The body of a filter is found first and read then. Both steps are compared with the
grammar, each in both directions.
-/

set_option autoImplicit false

namespace JsonTree.Path

-- The two scanners of a filter body call each other on shorter text, so they are compared
-- with the relation together.
mutual

theorem enclosed_of_scanBody {depth : Nat} {text body after : List Char}
    (read : scanBody depth text = some (body, after)) : Enclosed depth body := by
  match text with
  | [] => simp [scanBody] at read
  | c :: tail =>
    unfold scanBody at read
    split at read
    · next closing =>
      obtain ⟨rfl, rfl⟩ := Prod.mk.inj (Option.some.inj read)
      rw [closing.2]
      exact .nil
    · next inside =>
      simp only [Option.map_eq_some_iff] at read
      obtain ⟨⟨more, left⟩, inner, result⟩ := read
      obtain ⟨rfl, rfl⟩ := Prod.mk.inj result
      split at inner
      · next mark =>
        obtain ⟨quoted, content, outer, rfl, escaped, enclosed⟩ := enclosed_of_scanBodyQuoted inner
        exact .quoted (.text outer (isQuote_iff.mp mark) escaped) enclosed
      · next noMark =>
        split at inner
        · next opening => exact opening ▸ .opening (enclosed_of_scanBody inner)
        · next noOpening =>
          split at inner
          · next closing =>
            have deep : depth ≠ 0 := fun zero => inside ⟨closing, zero⟩
            obtain ⟨outer, rfl⟩ := Nat.exists_eq_succ_of_ne_zero deep
            exact closing ▸ .closing (enclosed_of_scanBody inner)
          · next noClosing =>
            -- The character is none of the marks that were looked for.
            refine .plain ?_ (enclosed_of_scanBody inner)
            simp_all [isQuote]
termination_by text.length

theorem enclosed_of_scanBodyQuoted {depth : Nat} {quote : Char} {text body after : List Char}
    (read : scanBodyQuoted depth quote text = some (body, after)) :
    ∃ inner content outer, body = inner ++ quote :: outer ∧ Escaped quote inner content
      ∧ Enclosed depth outer := by
  unfold scanBodyQuoted at read
  split at read
  · contradiction
  · contradiction
  · next c tail =>
    simp only [Option.map_eq_some_iff] at read
    obtain ⟨⟨more, left⟩, inner, result⟩ := read
    obtain ⟨rfl, rfl⟩ := Prod.mk.inj result
    obtain ⟨quoted, content, outer, rfl, escaped, enclosed⟩ := enclosed_of_scanBodyQuoted inner
    exact ⟨_, _, outer, rfl, .literal c escaped, enclosed⟩
  · next c tail noEnd noBackslash =>
    simp only [Option.map_eq_some_iff] at read
    obtain ⟨⟨more, left⟩, inner, result⟩ := read
    obtain ⟨rfl, rfl⟩ := Prod.mk.inj result
    split at inner
    · next closing => exact ⟨[], [], more, by rw [closing]; rfl, .nil, enclosed_of_scanBody inner⟩
    · next differ =>
      obtain ⟨quoted, content, outer, rfl, escaped, enclosed⟩ := enclosed_of_scanBodyQuoted inner
      refine ⟨_, _, outer, rfl, .plain ?_ differ escaped, enclosed⟩
      rintro rfl
      cases tail with
      | nil => contradiction
      | cons next tail => exact noBackslash next tail rfl rfl
termination_by text.length

end

theorem scanBodyQuoted_escaped {depth : Nat} {quote : Char} (mark : quote ≠ '\\')
    {inner content text body after : List Char} (escaped : Escaped quote inner content)
    (read : scanBody depth text = some (body, after)) :
    scanBodyQuoted depth quote (inner ++ quote :: text) = some (inner ++ quote :: body, after) := by
  induction escaped with
  | nil =>
    rw [List.nil_append, scanBodyQuoted.eq_4, if_pos rfl, read]
    · rfl
    · exact fun same => absurd same mark
    · exact fun _ _ same => absurd same mark
  | literal c _ ih => rw [List.cons_append, List.cons_append, scanBodyQuoted, ih]; rfl
  | plain backslash differ _ ih =>
    rw [List.cons_append, scanBodyQuoted.eq_4, if_neg differ, ih]
    · rfl
    · exact fun same => absurd same backslash
    · exact fun _ _ same => absurd same backslash

/-- The text that the relation encloses is what the scanner finds in front of a closing
parenthesis. -/
theorem Enclosed.scan {depth : Nat} {body : List Char} (enclosed : Enclosed depth body)
    (after : List Char) : scanBody depth (body ++ ')' :: after) = some (body, after) := by
  induction enclosed with
  | nil => rfl
  | opening _ ih =>
    rw [List.cons_append, scanBody, ih]
    rfl
  | @closing depth text _ ih =>
    have inside : ¬ (')' = ')' ∧ depth + 1 = 0) := fun both => Nat.succ_ne_zero depth both.2
    rw [List.cons_append, scanBody, if_neg inside, Nat.add_sub_cancel, ih]
    rfl
  | quoted quoted _ ih =>
    cases quoted with
    | text rest mark escaped =>
      obtain ⟨-, noBackslash, noClosing, -⟩ := quote_distinct (isQuote_iff.mpr mark)
      have read := scanBodyQuoted_escaped noBackslash escaped ih
      rw [List.cons_append, List.append_assoc, List.cons_append, scanBody,
        if_neg fun both => noClosing both.1, if_pos (isQuote_iff.mpr mark), read]
      rfl
  | @plain depth c text mark _ ih =>
    simp only [List.mem_cons, List.not_mem_nil, or_false, not_or] at mark
    have noQuote : ¬ isQuote c = true := by rw [isQuote_iff]; tauto
    rw [List.cons_append, scanBody, if_neg fun both => mark.2.1 both.1, if_neg noQuote,
      if_neg mark.1, if_neg mark.2.1, ih]
    rfl

theorem fieldChar_iff {c : Char} : FieldChar c ↔ isFieldChar c = true := by
  simp [FieldChar, isFieldChar, and_assoc]

theorem fields_of_readField {text rest : List Char} {names : List String}
    (read : readField text = .ok (names, rest)) :
    Fields text names rest ∨ (names = [] ∧ rest = text ∧ text.head? ≠ some '.') := by
  fun_induction readField text generalizing names with
  | case1 => contradiction
  | case2 tail names' left inner nonempty ih =>
    obtain ⟨rfl, rfl⟩ := Prod.mk.inj (Except.ok.inj read)
    refine .inl ?_
    have chars : ∀ c ∈ (String.ofList (tail.takeWhile isFieldChar)).toList, FieldChar c := by
      rw [String.toList_ofList]
      exact fun c member => fieldChar_iff.mpr (List.mem_takeWhile_imp member)
    have some : (String.ofList (tail.takeWhile isFieldChar)).toList ≠ [] := by
      rwa [String.toList_ofList]
    have whole : (String.ofList (tail.takeWhile isFieldChar)).toList ++ tail.dropWhile isFieldChar
        = tail := by rw [String.toList_ofList, List.takeWhile_append_dropWhile]
    rcases ih inner with later | ⟨rfl, rfl, noPoint⟩
    · have derived := Fields.more some chars later
      rwa [whole] at derived
    · have stop : ∀ c ∈ (tail.dropWhile isFieldChar).head?, ¬ FieldChar c := by
        intro c front
        rw [fieldChar_iff, head?_dropWhile c front]
        exact Bool.false_ne_true
      have derived := Fields.last some chars stop noPoint
      rwa [whole] at derived
  | case3 => contradiction
  | case4 text noPoint =>
    obtain ⟨rfl, rfl⟩ := Prod.mk.inj (Except.ok.inj read)
    refine .inr ⟨rfl, rfl, fun point => ?_⟩
    obtain ⟨tail, rfl⟩ := List.head?_eq_some_iff.mp point
    exact noPoint tail rfl

theorem Fields.front {text rest : List Char} {names : List String}
    (derived : Fields text names rest) : ∃ tail, text = '.' :: tail := by
  cases derived with
  | last => exact ⟨_, rfl⟩
  | more => exact ⟨_, rfl⟩

theorem readField_run {name : String} {text : List Char} (nonempty : name.toList ≠ [])
    (chars : ∀ c ∈ name.toList, FieldChar c) (stop : ∀ c ∈ text.head?, ¬ FieldChar c)
    {names : List String} {rest : List Char} (later : readField text = .ok (names, rest)) :
    readField ('.' :: (name.toList ++ text)) = .ok (name :: names, rest) := by
  have inside : ∀ c ∈ name.toList, isFieldChar c = true :=
    fun c member => fieldChar_iff.mp (chars c member)
  have bound : ∀ c ∈ text.head?, isFieldChar c = false :=
    fun c front => Bool.eq_false_iff.mpr fun field => stop c front (fieldChar_iff.mpr field)
  obtain ⟨taken, left⟩ := span_run inside bound
  rw [readField, taken, left, later]
  split
  · contradiction
  · rw [String.ofList_toList]

theorem Fields.read {text rest : List Char} {names : List String}
    (derived : Fields text names rest) : readField text = .ok (names, rest) := by
  induction derived with
  | @last name rest nonempty chars stop noPoint =>
    refine readField_run nonempty chars stop ?_
    unfold readField
    split
    · exact absurd rfl noPoint
    · rfl
  | @more name names text rest nonempty chars later ih =>
    refine readField_run nonempty chars ?_ ih
    obtain ⟨tail, rfl⟩ := later.front
    rintro _ ⟨⟩
    exact fun field => field.2 (by simp)

theorem length_le_one {first : Char} {tail : List Char} (noEqual : ∀ rest, tail ≠ '=' :: rest)
    {other : Comparator} (front : other.chars <+: first :: tail) : other.chars.length ≤ 1 := by
  obtain ⟨rest, same⟩ := front
  cases other with
  | greater | less => exact Nat.le_refl 1
  | _ => exact absurd (List.cons.inj same).2.symm (noEqual rest)

theorem operator_of_readComparator {text rest : List Char} {comparator : Comparator}
    (read : readComparator text = .ok (comparator, rest)) : Operator text comparator rest := by
  have short (other : Comparator) : other.chars.length ≤ 2 := by cases other <;> decide
  unfold readComparator at read
  split at read
  case h_7 => contradiction
  case h_5 tail noEqual =>
    obtain ⟨rfl, rfl⟩ := Prod.mk.inj (Except.ok.inj read)
    exact ⟨rfl, fun other front => length_le_one noEqual front⟩
  case h_6 tail noEqual =>
    obtain ⟨rfl, rfl⟩ := Prod.mk.inj (Except.ok.inj read)
    exact ⟨rfl, fun other front => length_le_one noEqual front⟩
  all_goals
    obtain ⟨rfl, rfl⟩ := Prod.mk.inj (Except.ok.inj read)
    exact ⟨rfl, fun other _ => short other⟩

theorem Operator.read {text rest : List Char} {comparator : Comparator}
    (derived : Operator text comparator rest) : readComparator text = .ok (comparator, rest) := by
  obtain ⟨rfl, longest⟩ := derived
  cases comparator with
  | greater =>
    have noEqual (tail : List Char) (same : rest = '=' :: tail) : False := by
      have := longest .atLeast ⟨tail, by rw [same]; rfl⟩
      contradiction
    exact readComparator.eq_5 rest noEqual
  | less =>
    have noEqual (tail : List Char) (same : rest = '=' :: tail) : False := by
      have := longest .atMost ⟨tail, by rw [same]; rfl⟩
      contradiction
    exact readComparator.eq_6 rest noEqual
  | _ => rfl

theorem Operator.front {text rest : List Char} {comparator : Comparator}
    (derived : Operator text comparator rest) :
    ∃ c tail, text = c :: tail ∧ isWhitespace c = false ∧ ¬ FieldChar c := by
  obtain ⟨rfl, -⟩ := derived
  have solid : ∀ c, c ∈ ['=', '!', '<', '>'] → isWhitespace c = false ∧ ¬ FieldChar c := by
    simp [FieldChar]
    decide
  cases comparator with
  | equal | notEqual | atLeast | atMost | greater | less =>
    exact ⟨_, _, rfl, solid _ (by simp)⟩

theorem ofWord?_eq_some_iff {word : List Char} {literal : Literal} :
    Literal.ofWord? word = some literal ↔ Word word literal := by
  constructor
  · intro read
    unfold Literal.ofWord? at read
    split at read
    · next same =>
      obtain rfl := Option.some.inj read
      exact same ▸ .yes
    · split at read
      · next same =>
        obtain rfl := Option.some.inj read
        exact same ▸ .no
      · split at read
        · next same =>
          obtain rfl := Option.some.inj read
          exact same ▸ .null
        · obtain ⟨value, number, rfl⟩ := Option.map_eq_some_iff.mp read
          exact .number (Number.read?_eq_some_iff.mp number)
  · intro derived
    cases derived with
    | yes | no | null => rfl
    | number spelled =>
      obtain ⟨c, tail, rfl, start⟩ := spelled.front
      have letter := (start_distinct start).2.2
      simp only [List.mem_cons, List.not_mem_nil, or_false, not_or] at letter
      simp [Literal.ofWord?, letter, Number.read?_of_spelled spelled]

theorem constant_of_readLiteral {text rest : List Char} {literal : Literal}
    (read : readLiteral text = .ok (literal, rest)) : Constant text literal rest := by
  unfold readLiteral at read
  split at read
  · next mark =>
    obtain ⟨content, inner, rfl⟩ := (map_eq_ok_iff _).mp read
    cases text with
    | nil => contradiction
    | cons c tail => exact .string (quoted_of_readQuoted mark inner)
  · split at read
    · contradiction
    · split at read
      · next known =>
        obtain ⟨rfl, rfl⟩ := Prod.mk.inj (Except.ok.inj read)
        have solid : ∀ c ∈ text.takeWhile isWordChar, isWhitespace c = false := by
          intro c member
          simpa [isWordChar] using List.mem_takeWhile_imp member
        have blank : ∀ c ∈ (text.dropWhile isWordChar).head?, isWhitespace c = true := by
          intro c front
          simpa [isWordChar] using head?_dropWhile c front
        have derived := Constant.word (ofWord?_eq_some_iff.mp known) solid blank
        rwa [List.takeWhile_append_dropWhile] at derived
      · contradiction

theorem Word.front {word : List Char} {literal : Literal} (derived : Word word literal) :
    ∃ c tail, word = c :: tail ∧ isQuote c = false := by
  cases derived with
  | yes | no | null => exact ⟨_, _, rfl, by decide⟩
  | number spelled =>
    obtain ⟨c, tail, rfl, start⟩ := spelled.front
    exact ⟨c, tail, rfl, (start_distinct start).1⟩

theorem Constant.read {text rest : List Char} {literal : Literal}
    (derived : Constant text literal rest) : readLiteral text = .ok (literal, rest) := by
  cases derived with
  | string quoted =>
    obtain ⟨c, tail, rfl, mark⟩ := quoted.front
    have front : (c :: tail).head?.any isQuote = true := mark
    rw [readLiteral, if_pos front, quoted.read]
    rfl
  | @word word rest literal derived solid blank =>
    have inside : ∀ c ∈ word, isWordChar c = true := by simpa [isWordChar] using solid
    have bound : ∀ c ∈ rest.head?, isWordChar c = false := by simpa [isWordChar] using blank
    obtain ⟨taken, left⟩ := span_run inside bound
    have known := ofWord?_eq_some_iff.mpr derived
    obtain ⟨c, tail, rfl, noQuote⟩ := derived.front
    have front : ¬ ((c :: tail ++ rest).head?.any isQuote = true) := by simp [noQuote]
    rw [readLiteral, if_neg front, taken, left]
    simp only [known]

theorem Constant.front {text rest : List Char} {literal : Literal}
    (derived : Constant text literal rest) :
    ∃ c tail, text = c :: tail ∧ isWhitespace c = false := by
  cases derived with
  | string quoted =>
    obtain ⟨c, tail, rfl, mark⟩ := quoted.front
    exact ⟨c, tail, rfl, (quote_distinct mark).1⟩
  | word derived solid =>
    obtain ⟨c, tail, rfl, -⟩ := derived.front
    exact ⟨c, _, rfl, solid c List.mem_cons_self⟩

theorem comparison_of_readComparison {body : List Char} {filter : Filter}
    (read : readComparison body = .ok filter) : Comparison body filter := by
  obtain ⟨front, frontBlank, frontSplit⟩ := blanks_skipBlank body
  simp only [readComparison, bind, Except.bind, pure, Except.pure] at read
  split at read
  · next tail item =>
    split at read
    · contradiction
    · next fields fieldsRead =>
      split at read
      · contradiction
      · next operator operatorRead =>
        split at read
        · contradiction
        · next constant constantRead =>
          split at read
          · next finish =>
            obtain rfl := Except.ok.inj read
            obtain ⟨before, beforeBlank, beforeSplit⟩ := blanks_skipBlank fields.2
            obtain ⟨behind, behindBlank, behindSplit⟩ := blanks_skipBlank operator.2
            obtain ⟨last, lastBlank, lastSplit⟩ := blanks_skipBlank constant.2
            rw [finish, List.append_nil] at lastSplit
            -- The reader has seen a point before it read the fields, so there are some.
            rcases fields_of_readField fieldsRead with names | ⟨-, -, noPoint⟩
            · rw [← beforeSplit] at names
              have compares := operator_of_readComparator operatorRead
              rw [← behindSplit] at compares
              have derived := Comparison.parts frontBlank names beforeBlank compares behindBlank
                (constant_of_readLiteral constantRead) (lastSplit ▸ lastBlank)
              rwa [← item, frontSplit] at derived
            · exact absurd rfl noPoint
          · contradiction
  · contradiction

/-- Field and operator are read in front of anything that a literal can be looked for in: the
body is a filter when a literal ends it. -/
theorem readComparison_eq_ok_iff {front text before left behind right : List Char}
    {field : List String} {comparator : Comparator} (frontBlank : Blanks front)
    (fields : Fields text field (before ++ left)) (beforeBlank : Blanks before)
    (compares : Operator left comparator (behind ++ right)) (behindBlank : Blanks behind)
    (solid : ∃ c tail, right = c :: tail ∧ isWhitespace c = false) {filter : Filter} :
    readComparison (front ++ '@' :: text) = .ok filter
      ↔ ∃ literal last, readLiteral right = .ok (literal, last) ∧ skipBlank last = []
        ∧ ⟨String.ofList (front ++ '@' :: text), field, comparator, literal⟩ = filter := by
  obtain ⟨tail, rfl⟩ := fields.front
  obtain ⟨c, operatorTail, operatorFront, operatorSolid, -⟩ := compares.front
  obtain ⟨d, constantTail, constantFront, constantSolid⟩ := solid
  -- No part begins with a blank, so those in front of it are passed over.
  have item : skipBlank (front ++ '@' :: '.' :: tail) = '@' :: '.' :: tail :=
    skipBlank_append frontBlank (by decide) _
  have operatorStart : skipBlank (before ++ left) = left := by
    rw [operatorFront]
    exact skipBlank_append beforeBlank operatorSolid operatorTail
  have constantStart : skipBlank (behind ++ right) = right := by
    rw [constantFront]
    exact skipBlank_append behindBlank constantSolid constantTail
  simp only [readComparison, bind, Except.bind, pure, Except.pure, item, fields.read,
    operatorStart, compares.read, constantStart]
  constructor
  · intro read
    cases found : readLiteral right with
    | error failure =>
      rw [found] at read
      contradiction
    | ok result =>
      rw [found] at read
      simp only at read
      split at read
      · next ended => exact ⟨_, _, rfl, ended, Except.ok.inj read⟩
      · contradiction
  · rintro ⟨literal, last, found, ended, rfl⟩
    simp only [found, ended]

theorem Comparison.read {body : List Char} {filter : Filter} (derived : Comparison body filter) :
    readComparison body = .ok filter := by
  cases derived with
  | parts frontBlank fields beforeBlank compares behindBlank constant lastBlank =>
    exact (readComparison_eq_ok_iff frontBlank fields beforeBlank compares behindBlank
      constant.front).mpr ⟨_, _, constant.read, skipBlank_blanks lastBlank, rfl⟩

theorem readFilter_eq_ok_iff {text rest : List Char} {filter : Filter} :
    readFilter text = .ok (filter, rest)
      ↔ ∃ blanks body, Blanks blanks ∧ Enclosed 0 body ∧ Comparison body filter
        ∧ text = blanks ++ '(' :: (body ++ ')' :: rest) := by
  constructor
  · intro read
    obtain ⟨blanks, blank, split⟩ := blanks_skipBlank text
    unfold readFilter at read
    split at read
    · next tail opening =>
      split at read
      · contradiction
      · next body after scanned =>
        split at read
        · next compared =>
          obtain ⟨rfl, rfl⟩ := Prod.mk.inj (Except.ok.inj read)
          refine ⟨blanks, body, blank, enclosed_of_scanBody scanned,
            comparison_of_readComparison compared, ?_⟩
          rw [← split, opening, scanBody_split scanned]
        · contradiction
    · contradiction
  · rintro ⟨blanks, body, blank, enclosed, compares, rfl⟩
    have opening := skipBlank_append blank (by decide : isWhitespace '(' = false)
      (body ++ ')' :: rest)
    simp only [readFilter, opening, enclosed.scan, compares.read]

end JsonTree.Path
