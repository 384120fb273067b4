import JsonTree.Proofs.Path.FilterBody

/-! The reader of path expressions accepts exactly the language.

Brackets, segments and whole expressions, each in both directions. No segment begins with
what a name may hold, so a `..` in front of one takes no name.
-/

set_option autoImplicit false

namespace JsonTree.Path

theorem bracket_of_readBracketContent {whole text rest : List Char} {selector : Selector}
    (read : readBracketContent whole text = .ok (selector, rest)) : Bracket text selector rest := by
  unfold readBracketContent at read
  split at read
  · contradiction
  · obtain ⟨rfl, rfl⟩ := Prod.mk.inj (Except.ok.inj read)
    exact .wildcard _
  · obtain ⟨filter, inner, rfl⟩ := (map_eq_ok_iff _).mp read
    obtain ⟨blanks, body, blank, enclosed, compares, rfl⟩ := readFilter_eq_ok_iff.mp inner
    exact .filter rest blank enclosed compares
  · split at read
    · next mark =>
      obtain ⟨name, inner, rfl⟩ := (map_eq_ok_iff _).mp read
      exact .property (quoted_of_readQuoted mark inner)
    · split at read
      · obtain ⟨position, inner, rfl⟩ := (map_eq_ok_iff _).mp read
        exact .index (index_of_readIndex inner)
      · contradiction

theorem Bracket.read {text rest : List Char} {selector : Selector}
    (derived : Bracket text selector rest) (whole : List Char) :
    readBracketContent whole text = .ok (selector, rest) := by
  cases derived with
  | wildcard => rfl
  | index index =>
    obtain ⟨c, tail, rfl, start⟩ := index.front
    obtain ⟨noQuote, -, distinct⟩ := start_distinct start
    simp only [List.mem_cons, List.not_mem_nil, or_false, not_or] at distinct
    have digit : c = '-' ∨ (Digit.ofChar? c).isSome = true := by
      rcases start with rfl | ⟨digit, rfl⟩
      · exact .inl rfl
      · exact .inr (by rw [Digit.ofChar?_toChar]; rfl)
    rw [readBracketContent.eq_4, if_neg (by simp [noQuote]), if_pos digit, index.read]
    · rfl
    · exact distinct.2.2.2.1
    · exact distinct.2.2.2.2
  | property quoted =>
    obtain ⟨c, tail, rfl, mark⟩ := quoted.front
    rw [readBracketContent.eq_4, if_pos mark, quoted.read]
    · rfl
    · exact (quote_distinct mark).2.2.2.1
    · exact (quote_distinct mark).2.2.2.2
  | filter rest blank enclosed compares =>
    rw [readBracketContent, readFilter_eq_ok_iff.mpr ⟨_, _, blank, enclosed, compares, rfl⟩]
    rfl

theorem Bracket.front {text rest : List Char} {selector : Selector}
    (derived : Bracket text selector rest) :
    ∃ c tail, text = c :: tail ∧ isWhitespace c = false := by
  cases derived with
  | wildcard | filter => exact ⟨_, _, rfl, by decide⟩
  | index index =>
    obtain ⟨c, tail, rfl, start⟩ := index.front
    exact ⟨c, tail, rfl, (start_distinct start).2.1⟩
  | property quoted =>
    obtain ⟨c, tail, rfl, mark⟩ := quoted.front
    exact ⟨c, tail, rfl, (quote_distinct mark).1⟩

theorem readBracket_eq_ok_iff {text rest : List Char} {selector : Selector} :
    readBracket text = .ok (selector, rest)
      ↔ ∃ before content after, Blanks before ∧ Bracket content selector (after ++ ']' :: rest)
        ∧ Blanks after ∧ text = before ++ content := by
  constructor
  · intro read
    obtain ⟨before, beforeBlank, beforeSplit⟩ := blanks_skipBlank text
    simp only [readBracket, bind, Except.bind] at read
    split at read
    · contradiction
    · next result contentRead =>
      obtain ⟨after, afterBlank, afterSplit⟩ := blanks_skipBlank result.2
      split at read
      · next closing =>
        obtain ⟨rfl, rfl⟩ := Prod.mk.inj (Except.ok.inj read)
        rw [closing] at afterSplit
        have derived := bracket_of_readBracketContent contentRead
        rw [← afterSplit] at derived
        exact ⟨before, _, after, beforeBlank, derived, afterBlank, beforeSplit.symm⟩
      · contradiction
      · contradiction
  · rintro ⟨before, content, after, beforeBlank, derived, afterBlank, rfl⟩
    obtain ⟨c, tail, rfl, solid⟩ := derived.front
    have opening := skipBlank_append beforeBlank solid tail
    have closing := skipBlank_append afterBlank (by decide : isWhitespace ']' = false) rest
    simp only [readBracket, bind, Except.bind, opening, derived.read, closing]
    rfl

theorem segment_of_readSelector {text rest : List Char} {selectors : List Selector}
    (nonempty : text ≠ []) (read : readSelector text = .ok (selectors, rest)) :
    Segment text selectors rest := by
  unfold readSelector at read
  split at read
  · contradiction
  · next tail =>
    split at read
    · obtain ⟨rfl, rfl⟩ := Prod.mk.inj (Except.ok.inj read)
      exact .descent _
    · next noEnd =>
      obtain ⟨name, inner, rfl⟩ :=
        (map_eq_ok_iff fun name => [Selector.descent, .property name]).mp read
      -- A `*` behind the points has been looked for before, so a name does not begin with one.
      refine .descentTo (name_of_readName ?_ inner)
      intro star
      obtain ⟨tail, rfl⟩ := List.head?_eq_some_iff.mp star
      exact noEnd rfl
  · obtain ⟨rfl, rfl⟩ := Prod.mk.inj (Except.ok.inj read)
    exact .pointWildcard _
  · next tail _ noStar =>
    obtain ⟨name, inner, rfl⟩ := (map_eq_ok_iff fun name => [Selector.property name]).mp read
    refine .property (name_of_readName ?_ inner)
    intro star
    obtain ⟨tail, rfl⟩ := List.head?_eq_some_iff.mp star
    exact noStar tail rfl
  · obtain ⟨selector, inner, rfl⟩ := (map_eq_ok_iff fun selector => [selector]).mp read
    obtain ⟨before, content, after, beforeBlank, derived, afterBlank, rfl⟩ :=
      readBracket_eq_ok_iff.mp inner
    exact .bracket beforeBlank derived afterBlank
  · obtain ⟨rfl, rfl⟩ := Prod.mk.inj (Except.ok.inj read)
    exact .wildcard _
  · contradiction

/-- What comes behind a part of the language begins another, so a bare `..` is no half of a
descent to a name. -/
theorem Segments.endsDescent {text : List Char} {selectors : List Selector}
    (derived : Segments text selectors) : endsDescent text = true := by
  cases derived with
  | nil => rfl
  | cons segment => cases segment <;> rfl

theorem Segment.read {text rest : List Char} {selectors : List Selector}
    (derived : Segment text selectors rest) (bound : endsDescent rest = true) :
    readSelector text = .ok (selectors, rest) := by
  cases derived with
  | descent => rw [readSelector, if_pos bound]
  | descentTo name =>
    obtain ⟨c, tail, rfl, point, bracket, star⟩ := name.front
    rw [readSelector, if_neg (by simp [endsDescent, point, bracket, star]), name.read]
    rfl
  | pointWildcard | wildcard => rfl
  | property name =>
    obtain ⟨c, tail, rfl, point, bracket, star⟩ := name.front
    rw [readSelector.eq_4, name.read]
    · rfl
    · exact fun _ same => point (List.cons.inj same).1
    · exact fun _ same => star (List.cons.inj same).1
  | bracket beforeBlank content afterBlank =>
    rw [readSelector, readBracket_eq_ok_iff.mpr ⟨_, _, _, beforeBlank, content, afterBlank, rfl⟩]
    rfl

theorem readSelectors_eq_ok_iff {text : List Char} {selectors : List Selector} :
    readSelectors text = .ok selectors ↔ Segments text selectors := by
  constructor
  · intro read
    fun_induction readSelectors text generalizing selectors with
    | case1 =>
      obtain rfl := Except.ok.inj read
      exact .nil
    | case2 => contradiction
    | case3 text nonempty found rest segment ih =>
      cases later : readSelectors rest with
      | error failure => simp [later, Except.map] at read
      | ok more =>
        rw [later] at read
        obtain rfl := Except.ok.inj read
        exact .cons (segment_of_readSelector nonempty segment) (ih later)
  · intro derived
    induction derived with
    | nil => rw [readSelectors, dif_pos rfl]
    | @cons text rest selectors more segment later ih =>
      -- A bare descent is read as one because no name can follow it in a derivation.
      have read := segment.read later.endsDescent
      have nonempty : text ≠ [] := by
        rintro rfl
        cases segment
      rw [readSelectors, dif_neg nonempty]
      split
      · next failed => rw [read] at failed; contradiction
      · next found left succeeded =>
        rw [read] at succeeded
        obtain ⟨rfl, rfl⟩ := Prod.mk.inj (Except.ok.inj succeeded)
        rw [ih]
        rfl

theorem parse_eq_ok_iff {expression : String} {path : Path} :
    parse expression = .ok path
      ↔ path.expression = expression ∧ ∃ text, expression.toList = '$' :: text
        ∧ readSelectors text = .ok path.selectors := by
  unfold parse
  split
  · next empty => simp [empty]
  · next rest root =>
    obtain ⟨written, selectors⟩ := path
    cases read : readSelectors rest with
    | error failure => simp [root, read]
    | ok found => simp [root, read, eq_comm]
  · next _ noRoot =>
    simp only [reduceCtorEq, false_iff]
    rintro ⟨-, text, root, -⟩
    exact noRoot text root

/-- Reading succeeds on the expressions of the language and on no others, and gives the
selectors of the derivation. -/
theorem parse_recognizes (expression : String) (path : Path) :
    parse expression = .ok path
      ↔ path.expression = expression ∧ Derives expression.toList path.selectors := by
  rw [parse_eq_ok_iff]
  refine and_congr_right fun _ => ?_
  constructor
  · rintro ⟨text, root, read⟩
    rw [root]
    exact .root (readSelectors_eq_ok_iff.mp read)
  · intro derived
    generalize written : expression.toList = text at derived
    cases derived with
    | root segments => exact ⟨_, rfl, readSelectors_eq_ok_iff.mpr segments⟩

end JsonTree.Path
