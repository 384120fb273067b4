import JsonTree.Proofs.Path.Printing

/-! What becomes of an expression that is printed and read again.

Only the end of a filter can be mistaken: the scanner that looks for it counts parentheses
and skips quoted text, and a field may hold a parenthesis or a quote. Where it finds the
printed end, the filter comes back. Where it stops elsewhere, it fails, since no comparison
goes on with a parenthesis behind another one.
-/

set_option autoImplicit false

namespace JsonTree.Path

theorem Fields.spelled {text rest : List Char} {names : List String}
    (derived : Fields text names rest) :
    text = fieldChars names ++ rest ∧ names ≠ [] ∧ ∀ name ∈ names, FieldSpelled name := by
  induction derived with
  | last nonempty chars =>
    refine ⟨by simp [fieldChars], List.cons_ne_nil _ _, ?_⟩
    exact List.forall_mem_singleton.mpr ⟨nonempty, chars⟩
  | more nonempty chars _ ih =>
    obtain ⟨split, -, others⟩ := ih
    refine ⟨by simp [fieldChars, split], List.cons_ne_nil _ _, ?_⟩
    exact List.forall_mem_cons.mpr ⟨⟨nonempty, chars⟩, others⟩

section

variable {text rest : List Char} (more : List Char)

theorem Fields.append {names : List String} (derived : Fields text names rest)
    (nonempty : rest ≠ []) : Fields (text ++ more) names (rest ++ more) := by
  induction derived with
  | last some chars stop noPoint =>
    obtain ⟨c, tail, rfl⟩ := List.exists_cons_of_ne_nil nonempty
    rw [List.cons_append, List.append_assoc]
    exact .last some chars stop noPoint
  | more some chars _ ih =>
    rw [List.cons_append, List.append_assoc]
    exact .more some chars (ih nonempty)

theorem Operator.append {comparator : Comparator} (derived : Operator text comparator rest)
    (nonempty : rest ≠ []) : Operator (text ++ more) comparator (rest ++ more) := by
  obtain ⟨rfl, longest⟩ := derived
  refine ⟨List.append_assoc .., fun other front => longest other ?_⟩
  have short : other.chars.length ≤ 2 := by cases other <;> decide
  have some : 1 ≤ comparator.chars.length := by cases comparator <;> decide
  have behind := List.length_pos_iff.mpr nonempty
  refine List.prefix_of_prefix_length_le front (List.prefix_append _ more) ?_
  rw [List.length_append]
  omega

theorem Quoted.append {content : String} (derived : Quoted text content rest) :
    Quoted (text ++ more) content (rest ++ more) := by
  cases derived with
  | text _ mark escaped =>
    rw [List.cons_append, List.append_assoc, List.cons_append]
    exact .text _ mark escaped

end

theorem Word.enclosed {word : List Char} {literal : Literal} (derived : Word word literal) :
    ∀ c ∈ word, EnclosedChar c := by
  have marks : ∀ mark ∈ ['-', '+', '.', 'e', 'E'], EnclosedChar mark := forall_of_all (by decide)
  have digits : ∀ digit : Digit, EnclosedChar digit.toChar := by decide
  cases derived with
  | yes | no | null => exact forall_of_all (by decide)
  | number spelled => exact spelled.forall_mem digits marks

theorem Blanks.enclosed {blanks : List Char} (blank : Blanks blanks) :
    ∀ c ∈ blanks, EnclosedChar c := by
  have solid : ∀ mark ∈ ['(', ')', '\'', '"'], isWhitespace mark = false :=
    forall_of_all (by decide)
  intro c member mark
  exact Bool.false_ne_true ((solid c mark).symm.trans (blank c member))

theorem Constant.unextended {text last more left : List Char} {literal found : Literal}
    (derived : Constant text literal last)
    (read : readLiteral (text ++ ')' :: more) = .ok (found, left)) : skipBlank left ≠ [] := by
  intro finished
  obtain ⟨blanks, leftBlank, split⟩ := blanks_skipBlank left
  rw [finished, List.append_nil] at split
  have noClosing : ')' ∉ left := fun member =>
    Blanks.enclosed (split ▸ leftBlank) ')' member (by decide)
  cases derived with
  | string quoted =>
    rw [(Constant.string (quoted.append (')' :: more))).read] at read
    obtain ⟨-, rfl⟩ := Prod.mk.inj (Except.ok.inj read)
    exact noClosing (by simp)
  | word word solid =>
    obtain ⟨c, tail, rfl, noQuote⟩ := word.front
    have again := constant_of_readLiteral read
    generalize whole : c :: tail ++ last ++ ')' :: more = text at again
    have inside : ')' ∈ text := by rw [← whole]; simp
    cases again with
    | string quoted =>
      obtain ⟨d, rest, rfl, mark⟩ := quoted.front
      rw [← (List.cons.inj whole).1, noQuote] at mark
      contradiction
    | word other =>
      rcases List.mem_append.mp inside with early | late
      · exact other.enclosed ')' early (by decide)
      · exact noClosing late

/-- No comparison is the beginning of another one that goes on with a parenthesis. -/
theorem Comparison.unextended {body more : List Char} {filter other : Filter}
    (derived : Comparison body filter) : ¬ Comparison (body ++ ')' :: more) other := by
  intro extended
  have read := extended.read
  cases derived with
  | @parts front text before left behind right last field comparator literal frontBlank fields
      beforeBlank compares behindBlank constant lastBlank =>
    obtain ⟨c, operatorTail, operatorFront, -, -⟩ := compares.front
    obtain ⟨d, constantTail, constantFront, constantSolid⟩ := constant.front
    have fields := fields.append (')' :: more) (by simp [operatorFront])
    have compares := compares.append (')' :: more) (by simp [constantFront])
    have solid : ∃ c tail, right ++ ')' :: more = c :: tail ∧ isWhitespace c = false :=
      ⟨d, constantTail ++ ')' :: more, by rw [constantFront]; rfl, constantSolid⟩
    rw [List.append_assoc] at fields compares
    rw [List.append_assoc, List.cons_append,
      readComparison_eq_ok_iff frontBlank fields beforeBlank compares behindBlank solid] at read
    -- Whatever literal is read, the parenthesis is left behind it.
    obtain ⟨_, _, found, ended, -⟩ := read
    exact constant.unextended found ended

theorem Comparison.spelled {body : List Char} {filter : Filter}
    (derived : Comparison body filter) : (Selector.filter filter).Spelled := by
  cases derived with
  | parts _ fields => exact fields.spelled.2

theorem Index.spelled {text rest : List Char} {position : Int}
    (derived : Index text position rest) : (Selector.index position).Spelled := by
  cases derived with
  | digits =>
    unfold Selector.Spelled saturate leastInt64 greatestInt64
    omega

theorem Segments.forall_mem {holds : Selector → Prop} (descent : holds .descent)
    (wildcard : holds .wildcard) (property : ∀ name, holds (.property name))
    (bracket : ∀ text selector rest, Bracket text selector rest → holds selector)
    {text : List Char} {selectors : List Selector} (derived : Segments text selectors) :
    ∀ selector ∈ selectors, holds selector := by
  induction derived with
  | nil => exact List.forall_mem_nil _
  | cons segment _ ih =>
    refine List.forall_mem_append.mpr ⟨?_, ih⟩
    cases segment with
    | descent => exact List.forall_mem_singleton.mpr descent
    | descentTo =>
      exact List.forall_mem_cons.mpr ⟨descent, List.forall_mem_singleton.mpr (property _)⟩
    | pointWildcard | wildcard => exact List.forall_mem_singleton.mpr wildcard
    | property => exact List.forall_mem_singleton.mpr (property _)
    | bracket _ inner => exact List.forall_mem_singleton.mpr (bracket _ _ _ inner)

theorem Segments.spelled {text : List Char} {selectors : List Selector}
    (derived : Segments text selectors) : ∀ selector ∈ selectors, selector.Spelled := by
  refine derived.forall_mem trivial trivial (fun _ => trivial) fun text selector rest inner => ?_
  cases inner with
  | index index => exact index.spelled
  | filter _ _ _ compares => exact compares.spelled
  | wildcard | property => trivial

theorem Segments.filter_body {text : List Char} {selectors : List Selector} {condition : Filter}
    (derived : Segments text selectors) (member : .filter condition ∈ selectors) :
    ∃ body, Enclosed 0 body ∧ Comparison body condition := by
  have each : ∀ selector ∈ selectors, ∀ condition, selector = .filter condition →
      ∃ body, Enclosed 0 body ∧ Comparison body condition := by
    refine derived.forall_mem (by simp) (by simp) (by simp) ?_
    rintro text _ rest inner condition rfl
    cases inner with
    | filter _ _ enclosed compares => exact ⟨_, enclosed, compares⟩
  exact each _ member condition rfl

theorem selectorsChars_reprinted (bare : Bool) (selectors : List Selector) :
    selectorsChars bare (selectors.map Selector.reprinted) = selectorsChars bare selectors := by
  induction selectors generalizing bare with
  | nil => rfl
  | cons selector selectors ih =>
    cases selector <;> simp only [List.map_cons, selectorsChars, ih, Selector.reprinted,
      Selector.isDescent, Selector.chars, Filter.chars]

theorem Segments.readSelector {text : List Char} {all : List Selector}
    (derived : Segments text all) (nonempty : text ≠ []) :
    ∃ selectors rest more, Path.readSelector text = .ok (selectors, rest) ∧ Segments rest more := by
  cases derived with
  | nil => contradiction
  | cons segment later => exact ⟨_, _, _, segment.read later.endsDescent, later⟩

theorem Segments.behind {text rest : List Char} {selectors all : List Selector}
    (derived : Segments text all) (nonempty : text ≠ [])
    (read : Path.readSelector text = .ok (selectors, rest)) : ∃ more, Segments rest more := by
  obtain ⟨found, left, more, first, later⟩ := derived.readSelector nonempty
  rw [read] at first
  obtain ⟨-, rfl⟩ := Prod.mk.inj (Except.ok.inj first)
  exact ⟨more, later⟩

theorem chars_ne_nil (selector : Selector) : selector.chars ≠ [] := by
  cases selector with
  | property name => rw [Selector.chars]; split <;> simp
  | _ => simp [Selector.chars]

theorem endsDescent_selectorsChars (selectors : List Selector) :
    endsDescent (selectorsChars false selectors) = true := by
  have bound := head?_selectorsChars selectors
  cases text : selectorsChars false selectors with
  | nil => rfl
  | cons c tail =>
    rw [text] at bound
    rcases bound c rfl with rfl | rfl <;> rfl

theorem Comparison.unique {body other after rest : List Char} {filter found : Filter}
    (derived : Comparison body filter) (again : Comparison other found)
    (same : body ++ ')' :: after = other ++ ')' :: rest) : body = other := by
  rcases List.append_eq_append_iff.mp same with ⟨more, rfl, split⟩ | ⟨more, rfl, split⟩
  · cases more with
    | nil => rw [List.append_nil]
    | cons c more =>
      obtain ⟨rfl, -⟩ := List.cons.inj split
      exact absurd again derived.unextended
  · cases more with
    | nil => rw [List.append_nil]
    | cons c more =>
      obtain ⟨rfl, -⟩ := List.cons.inj split
      exact absurd derived again.unextended

/-- A printed filter is read, if at all, up to its printed end. -/
theorem enclosed_of_readSelector {condition : Filter}
    (spelled : (Selector.filter condition).Spelled) {rest left : List Char}
    {selectors : List Selector}
    (read : readSelector ((Selector.filter condition).chars ++ rest) = .ok (selectors, left)) :
    Enclosed 0 condition.chars := by
  have text : (Selector.filter condition).chars ++ rest
      = '[' :: '?' :: '(' :: (condition.chars ++ ')' :: ']' :: rest) := by simp [Selector.chars]
  rw [text, readSelector] at read
  obtain ⟨selector, bracket, -⟩ := (map_eq_ok_iff fun selector => [selector]).mp read
  have opening := skipBlank_append blanks_nil (by decide : isWhitespace '?' = false)
    ('(' :: (condition.chars ++ ')' :: ']' :: rest))
  rw [List.nil_append] at opening
  simp only [readBracket, bind, Except.bind, opening, readBracketContent] at bracket
  split at bracket
  · contradiction
  · next found inner =>
    obtain ⟨filter, filterRead, -⟩ := (map_eq_ok_iff _).mp inner
    obtain ⟨blanks, body, blank, enclosed, compares, split⟩ := readFilter_eq_ok_iff.mp filterRead
    -- Nothing is printed in front of the parenthesis, so no blanks can stand there.
    cases blanks with
    | nil =>
      rw [(comparison_chars spelled.1 spelled.2).unique compares (List.cons.inj split).2]
      exact enclosed
    | cons c blanks =>
      obtain ⟨rfl, -⟩ := List.cons.inj split
      exact absurd (blank '(' List.mem_cons_self) (by decide)

theorem reenclosed_of_segments {selectors : List Selector}
    (spelled : ∀ selector ∈ selectors, selector.Spelled) :
    (∀ all, Segments (selectorsChars false selectors) all →
      ∀ selector ∈ selectors, selector.Reenclosed)
      ∧ ∀ all, Segments ('.' :: '.' :: selectorsChars true selectors) all →
        ∀ selector ∈ selectors, selector.Reenclosed := by
  induction selectors with
  | nil => exact ⟨fun _ _ => List.forall_mem_nil _, fun _ _ => List.forall_mem_nil _⟩
  | cons selector selectors ih =>
    obtain ⟨first, others⟩ := List.forall_mem_cons.mp spelled
    obtain ⟨plain, behind⟩ := ih others
    have bound := head?_selectorsChars selectors
    have ends := endsDescent_selectorsChars selectors
    have alone : ∀ all, Segments (selectorsChars false (selector :: selectors)) all →
        ∀ each ∈ selector :: selectors, each.Reenclosed := by
      intro all derived
      by_cases descent : selector = .descent
      · subst descent
        exact List.forall_mem_cons.mpr ⟨trivial, behind all derived⟩
      · rw [selectorsChars_cons descent] at derived
        -- Only a filter needs an argument: it was read, so its parenthesis closes behind its body.
        have enclosed : selector.Reenclosed := by
          cases selector with
          | filter condition =>
            obtain ⟨found, left, -, read, -⟩ := derived.readSelector (by simp [Selector.chars])
            exact enclosed_of_readSelector first read
          | _ => trivial
        have read := (segment_chars first enclosed descent bound).read ends
        obtain ⟨more, later⟩ := derived.behind (by simp [chars_ne_nil]) read
        exact List.forall_mem_cons.mpr ⟨enclosed, plain more later⟩
    refine ⟨alone, fun all derived => ?_⟩
    -- Behind a descent a plain name is printed without its point and belongs to the same segment;
    -- any other selector is printed as it is on its own.
    by_cases bare : ∃ name, selector = .property name ∧ isPlainName name.toList = true
    · obtain ⟨name, rfl, letters⟩ := bare
      have read := (Segment.descentTo (name_of_isPlainName letters bound)).read ends
      have text : selectorsChars true (.property name :: selectors)
          = name.toList ++ selectorsChars false selectors := by
        simp [selectorsChars, letters, Selector.isDescent]
      rw [text] at derived
      obtain ⟨more, later⟩ := derived.behind (List.cons_ne_nil _ _) read
      exact List.forall_mem_cons.mpr ⟨trivial, plain more later⟩
    · have same : selectorsChars true (selector :: selectors)
          = selectorsChars false (selector :: selectors) := by
        cases selector with
        | property name => simp_all [selectorsChars]
        | _ => rfl
      rw [same] at derived
      have read := (Segment.descent _).read (endsDescent_selectorsChars (selector :: selectors))
      obtain ⟨more, later⟩ := derived.behind (List.cons_ne_nil _ _) read
      exact alone more later

theorem enclosed_carry {depth : Nat} {front back : List Char}
    (noQuote : ∀ c ∈ front, isQuote c = false) (enclosed : Enclosed depth (front ++ back)) :
    ∃ reached, Enclosed reached back
      ∧ ∀ other, Enclosed reached other → Enclosed depth (front ++ other) := by
  induction front generalizing depth with
  | nil => exact ⟨depth, enclosed, fun _ other => other⟩
  | cons c front ih =>
    obtain ⟨first, others⟩ := List.forall_mem_cons.mp noQuote
    cases enclosed with
    | opening inner =>
      obtain ⟨reached, behind, carry⟩ := ih others inner
      exact ⟨reached, behind, fun other enclosed => .opening (carry other enclosed)⟩
    | closing inner =>
      obtain ⟨reached, behind, carry⟩ := ih others inner
      exact ⟨reached, behind, fun other enclosed => .closing (carry other enclosed)⟩
    | plain mark inner =>
      obtain ⟨reached, behind, carry⟩ := ih others inner
      exact ⟨reached, behind, fun other enclosed => .plain mark (carry other enclosed)⟩
    | quoted quoted =>
      obtain ⟨quote, _, same, mark⟩ := quoted.front
      rw [← (List.cons.inj same).1, first] at mark
      contradiction

theorem enclosed_drop {depth : Nat} {front back : List Char}
    (plain : ∀ c ∈ front, EnclosedChar c) (enclosed : Enclosed depth (front ++ back)) :
    Enclosed depth back := by
  induction front with
  | nil => exact enclosed
  | cons c front ih =>
    obtain ⟨first, others⟩ := List.forall_mem_cons.mp plain
    cases enclosed with
    | opening | closing => exact absurd first (by decide)
    | plain _ inner => exact ih others inner
    | quoted quoted =>
      obtain ⟨quote, _, same, mark⟩ := quoted.front
      rw [← (List.cons.inj same).1, isQuote_iff] at mark
      exact absurd first (by rcases mark with rfl | rfl <;> decide)

theorem depth_of_plain {depth : Nat} {text : List Char} (plain : ∀ c ∈ text, EnclosedChar c)
    (enclosed : Enclosed depth text) : depth = 0 := by
  rw [← List.append_nil text] at enclosed
  cases enclosed_drop plain enclosed with
  | nil => rfl
  | quoted quoted =>
    obtain ⟨_, _, same, -⟩ := quoted.front
    contradiction

theorem Constant.depth {depth : Nat} {text last : List Char} {literal : Literal}
    (derived : Constant text literal last) (blank : Blanks last) (enclosed : Enclosed depth text) :
    depth = 0 := by
  cases derived with
  | string quoted =>
    obtain ⟨c, tail, rfl, mark⟩ := quoted.front
    cases enclosed with
    | opening | closing => contradiction
    | plain noMark =>
      rw [isQuote_iff] at mark
      exact absurd noMark (by rcases mark with rfl | rfl <;> decide)
    | quoted again behind =>
      have same := again.read
      rw [quoted.read] at same
      obtain ⟨-, rfl⟩ := Prod.mk.inj (Except.ok.inj same)
      exact depth_of_plain blank.enclosed behind
  | word word =>
    exact depth_of_plain (List.forall_mem_append.mpr ⟨word.enclosed, blank.enclosed⟩) enclosed

/-- Where no name of a field has a quote, the filter is enclosed in print as it was before. -/
theorem Comparison.reenclosed {body : List Char} {filter : Filter}
    (derived : Comparison body filter) (enclosed : Enclosed 0 body)
    (noQuote : ∀ name ∈ filter.field, ∀ c ∈ name.toList, isQuote c = false) :
    Enclosed 0 filter.chars := by
  have nonempty := derived.spelled.1
  cases derived with
  | @parts front text before left behind right last field comparator literal frontBlank fields
      beforeBlank compares behindBlank constant lastBlank =>
    have noMark : ∀ c ∈ fieldChars field, isQuote c = false := by
      intro c member
      obtain ⟨name, known, inside⟩ := List.mem_flatMap.mp member
      rcases List.mem_cons.mp inside with rfl | inside
      · decide
      · exact noQuote name known c inside
    have item := enclosed_drop (forall_of_all (by decide) : ∀ c ∈ ['@'], EnclosedChar c)
      (enclosed_drop frontBlank.enclosed enclosed)
    rw [fields.spelled.1] at item
    obtain ⟨reached, rest, carry⟩ := enclosed_carry noMark item
    have operator := enclosed_drop beforeBlank.enclosed rest
    rw [compares.split] at operator
    have literalEnclosed := enclosed_drop behindBlank.enclosed
      (enclosed_drop (comparator_enclosed comparator) operator)
    obtain rfl := constant.depth lastBlank literalEnclosed
    rw [filter_chars nonempty]
    exact .plain (by decide) (carry _ (enclosed_behind_field comparator literal))

/-- An expression that was read, printed and read again. It is read at all just when every
filter is enclosed in its printed text, as it is where no field has a quote in its name. Then
its selectors are the same but for the texts of the filters, and so is what is printed. -/
theorem canonical_reread {expression : String} {path : Path}
    (parsed : parse expression = .ok path) :
    (∀ again, parse path.canonical = .ok again →
      again = ⟨path.canonical, path.selectors.map Selector.reprinted⟩
        ∧ again.canonical = path.canonical)
      ∧ ((∃ again, parse path.canonical = .ok again)
        ↔ ∀ selector ∈ path.selectors, selector.Reenclosed)
      ∧ ((∀ condition, .filter condition ∈ path.selectors → ∀ name ∈ condition.field,
          ∀ c ∈ name.toList, isQuote c = false) → ∃ again, parse path.canonical = .ok again) := by
  obtain ⟨-, text, -, read⟩ := parse_eq_ok_iff.mp parsed
  have derived := readSelectors_eq_ok_iff.mp read
  have printed : path.canonical.toList = '$' :: selectorsChars false path.selectors := by
    rw [canonical, String.toList_ofList, chars]
  have accepted (enclosed : ∀ selector ∈ path.selectors, selector.Reenclosed) :
      parse path.canonical = .ok ⟨path.canonical, path.selectors.map Selector.reprinted⟩ := by
    refine parse_eq_ok_iff.mpr ⟨rfl, _, printed, readSelectors_eq_ok_iff.mpr ?_⟩
    exact (segments_of_derivable fun selector member =>
      ⟨derived.spelled selector member, enclosed selector member⟩).1
  -- The grammar reads the printed text in one way, so a success has read each filter as a whole.
  have necessary {again : Path} (succeeds : parse path.canonical = .ok again) :
      ∀ selector ∈ path.selectors, selector.Reenclosed := by
    obtain ⟨-, text, root, selectors⟩ := parse_eq_ok_iff.mp succeeds
    rw [printed] at root
    obtain ⟨-, rfl⟩ := List.cons.inj root
    exact (reenclosed_of_segments derived.spelled).1 _ (readSelectors_eq_ok_iff.mp selectors)
  refine ⟨fun again succeeds => ?_, ⟨?_, fun enclosed => ⟨_, accepted enclosed⟩⟩,
    fun noQuote => ⟨_, accepted ?_⟩⟩
  · rw [accepted (necessary succeeds)] at succeeds
    obtain rfl := Except.ok.inj succeeds
    refine ⟨rfl, ?_⟩
    rw [canonical, canonical, chars, chars, selectorsChars_reprinted]
  · rintro ⟨_, succeeds⟩
    exact necessary succeeds
  · intro selector member
    cases selector with
    | filter condition =>
      obtain ⟨body, enclosed, compares⟩ := derived.filter_body member
      exact compares.reenclosed enclosed (noQuote condition member)
    | _ => trivial

/-- Parentheses in a name and in a literal, and blanks in between. -/
theorem canonical_reread_parentheses :
    let path : Path := ⟨"$..['a b'][?( @.a(b).c>=\"x)\" )]", [.descent, .property "a b",
      .filter ⟨" @.a(b).c>=\"x)\" ", ["a(b)", "c"], .atLeast, .string "x)"⟩]⟩
    parse path.expression = .ok path ∧ path.canonical = "$..['a b'][?(@.a(b).c >= 'x)')]"
      ∧ ∃ again, parse path.canonical = .ok again ∧ again.canonical = path.canonical := by
  intro path
  have parsed : parse path.expression = .ok path := by decide +kernel
  obtain ⟨same, -, noQuote⟩ := canonical_reread parsed
  have names : ∀ condition, .filter condition ∈ path.selectors → ∀ name ∈ condition.field,
      ∀ c ∈ name.toList, isQuote c = false := by
    intro condition member
    obtain rfl : condition = ⟨" @.a(b).c>=\"x)\" ", ["a(b)", "c"], .atLeast, .string "x)"⟩ := by
      simpa [path] using member
    refine List.forall_mem_cons.mpr ⟨?_, List.forall_mem_singleton.mpr ?_⟩
    · exact forall_of_all (by decide)
    · exact forall_of_all (by decide)
  obtain ⟨again, read⟩ := noQuote names
  exact ⟨parsed, by decide +kernel, again, read, (same again read).2⟩

/-- A name may have a quote that the text in quotes behind it closed. In print the quotes
are of two kinds, and the filter has no end. -/
theorem canonical_unread :
    ∃ path, parse "$[?(@.a\" == \"\\\"\")]" = .ok path ∧ path.canonical = "$[?(@.a\" == '\"')]"
      ∧ parse path.canonical = .error ⟨path.canonical, 3, .unclosedParenthesis⟩ :=
  ⟨⟨"$[?(@.a\" == \"\\\"\")]", [.filter ⟨"@.a\" == \"\\\"\"", ["a\""], .equal, .string "\""⟩]⟩,
    by decide +kernel, by decide +kernel, by decide +kernel⟩

end JsonTree.Path
