import JsonTree.Path.Selector
import JsonTree.Path.SyntaxError
import JsonTree.Text.Whitespace

/-! Reading path expressions.

Every reader takes the text from some place on and gives back what it read and the
text after it, which is shorter. A failure carries the text from its own place on.
-/

set_option autoImplicit false

namespace JsonTree.Path

def skipBlank (text : List Char) : List Char := text.dropWhile isWhitespace

def scanName : List Char → Except Failure (List Char × List Char)
  | [] => .ok ([], [])
  | c :: rest =>
    if c = '.' ∨ c = '[' then .ok ([], c :: rest)
    else if c = ']' ∨ c = '\'' ∨ c = '"' then .error ⟨.unexpectedInName c, c :: rest⟩
    else if isWhitespace c then .error ⟨.blankInName, c :: rest⟩
    else (scanName rest).map fun (name, rest) => (c :: name, rest)

def readName (text : List Char) : Except Failure (String × List Char) :=
  match scanName text with
  | .error failure => .error failure
  | .ok ([], _) => .error ⟨.missingName, text⟩
  | .ok (name, rest) => .ok (String.ofList name, rest)

def isQuote (c : Char) : Bool := c == '\'' || c == '"'

/-- The content of a quoted text whose opening quote has been taken. A backslash takes
the next character as it is. -/
def scanQuoted (quote : Char) : List Char → Option (List Char × List Char)
  | [] => none
  | ['\\'] => none
  | '\\' :: c :: rest => (scanQuoted quote rest).map fun (content, rest) => (c :: content, rest)
  | c :: rest =>
    if c = quote then some ([], rest)
    else (scanQuoted quote rest).map fun (content, rest) => (c :: content, rest)

def readQuoted : List Char → Except Failure (String × List Char)
  | [] => .error ⟨.unterminatedString, []⟩
  | quote :: rest =>
    match scanQuoted quote rest with
    | some (content, rest) => .ok (String.ofList content, rest)
    | none => .error ⟨.unterminatedString, quote :: rest⟩

/-- An index. Beyond the signed 64-bit range it stops at the end of the range, where
no array has an item. -/
def readIndex (text : List Char) : Except Failure (Int × List Char) :=
  match Digit.scan (Number.scanSign text).2 with
  | ([], _) => .error ⟨.badIndex, text⟩
  | (digits, rest) =>
    let value : Int := Digit.value digits
    .ok (saturate (if (Number.scanSign text).1 then -value else value), rest)

-- The body of a filter is found before it is read, so only quotes and parentheses matter
-- here; brackets inside it are left to the reader of the comparison.
mutual

/-- The text up to the parenthesis that closes, past `depth` inner ones, and the text
after it. Parentheses in quotes do not count. -/
def scanBody (depth : Nat) : List Char → Option (List Char × List Char)
  | [] => none
  | c :: rest =>
    if c = ')' ∧ depth = 0 then some ([], rest)
    else
      let inner :=
        if isQuote c then scanBodyQuoted depth c rest
        else if c = '(' then scanBody (depth + 1) rest
        else if c = ')' then scanBody (depth - 1) rest
        else scanBody depth rest
      inner.map fun (body, after) => (c :: body, after)

def scanBodyQuoted (depth : Nat) (quote : Char) : List Char → Option (List Char × List Char)
  | [] => none
  | ['\\'] => none
  | '\\' :: c :: rest =>
    (scanBodyQuoted depth quote rest).map fun (body, after) => ('\\' :: c :: body, after)
  | c :: rest =>
    let inner := if c = quote then scanBody depth rest else scanBodyQuoted depth quote rest
    inner.map fun (body, after) => (c :: body, after)

end

def isFieldChar (c : Char) : Bool :=
  !(isWhitespace c || c == '.' || c == '=' || c == '!' || c == '<' || c == '>')

def readField (text : List Char) : Except Failure (List String × List Char) :=
  match text with
  | '.' :: rest =>
    match rest.takeWhile isFieldChar with
    | [] => .error ⟨.missingField, rest⟩
    | name =>
      match readField (rest.dropWhile isFieldChar) with
      | .ok (names, rest) => .ok (String.ofList name :: names, rest)
      | .error failure => .error failure
  | _ => .ok ([], text)
termination_by text.length
decreasing_by
  have := (List.dropWhile_suffix (l := rest) isFieldChar).length_le
  simp
  omega

def readComparator : List Char → Except Failure (Comparator × List Char)
  | '=' :: '=' :: rest => .ok (.equal, rest)
  | '!' :: '=' :: rest => .ok (.notEqual, rest)
  | '>' :: '=' :: rest => .ok (.atLeast, rest)
  | '<' :: '=' :: rest => .ok (.atMost, rest)
  | '>' :: rest => .ok (.greater, rest)
  | '<' :: rest => .ok (.less, rest)
  | text => .error ⟨.missingComparator, text⟩

def isWordChar (c : Char) : Bool := !isWhitespace c

def Literal.ofWord? (word : List Char) : Option Literal :=
  if word = ['t', 'r', 'u', 'e'] then some (.bool true)
  else if word = ['f', 'a', 'l', 's', 'e'] then some (.bool false)
  else if word = ['n', 'u', 'l', 'l'] then some .null
  else (Number.read? word).map .number

def readLiteral (text : List Char) : Except Failure (Literal × List Char) :=
  if text.head?.any isQuote then
    (readQuoted text).map fun (content, rest) => (.string content, rest)
  else
    match text.takeWhile isWordChar with
    | [] => .error ⟨.missingLiteral, text⟩
    | word =>
      match Literal.ofWord? word with
      | some literal => .ok (literal, text.dropWhile isWordChar)
      | none => .error ⟨.badLiteral (String.ofList word), text⟩

def readComparison (body : List Char) : Except Failure Filter := do
  let text := skipBlank body
  let field ← match text with
    | '@' :: '.' :: rest => pure ('.' :: rest)
    | _ => .error ⟨.missingItem, text⟩
  let (names, text) ← readField field
  let (comparator, text) ← readComparator (skipBlank text)
  let (literal, text) ← readLiteral (skipBlank text)
  match skipBlank text with
  | [] => pure ⟨String.ofList body, names, comparator, literal⟩
  | rest => .error ⟨.textAfterLiteral, rest⟩

/-- A filter from after its `?` on. A failure inside the body stands in front of the
rest of the whole text. -/
def readFilter (text : List Char) : Except Failure (Filter × List Char) :=
  match skipBlank text with
  | '(' :: rest =>
    match scanBody 0 rest with
    | none => .error ⟨.unclosedParenthesis, '(' :: rest⟩
    | some (body, after) =>
      match readComparison body with
      | .ok filter => .ok (filter, after)
      | .error failure => .error ⟨failure.fault, failure.rest ++ ')' :: after⟩
  | rest => .error ⟨.missingParenthesis, rest⟩

/-- What a bracket holds, from after its `[` and the blanks behind it on. `whole` is the
text from the bracket on. -/
def readBracketContent (whole : List Char) : List Char → Except Failure (Selector × List Char)
  | [] => .error ⟨.unclosedBracket, whole⟩
  | '*' :: rest => .ok (.wildcard, rest)
  | '?' :: rest => (readFilter rest).map fun (filter, rest) => (.filter filter, rest)
  | c :: rest =>
    if isQuote c then
      (readQuoted (c :: rest)).map fun (name, rest) => (.property name, rest)
    else if c = '-' ∨ (Digit.ofChar? c).isSome then
      (readIndex (c :: rest)).map fun (index, rest) => (.index index, rest)
    else .error ⟨.badBracket, c :: rest⟩

def readBracket (rest : List Char) : Except Failure (Selector × List Char) := do
  let (selector, text) ← readBracketContent ('[' :: rest) (skipBlank rest)
  match skipBlank text with
  | ']' :: after => pure (selector, after)
  | [] => .error ⟨.unclosedBracket, '[' :: rest⟩
  | c :: after => .error ⟨.missingBracket c, c :: after⟩

/-- Whether a selector of its own follows a `..`, so that no name belongs to it. -/
def endsDescent : List Char → Bool
  | [] => true
  | c :: _ => c == '.' || c == '[' || c == '*'

/-- The selectors at the front of a text, which are two when a name follows `..`
directly. -/
def readSelector : List Char → Except Failure (List Selector × List Char)
  | [] => .ok ([], [])
  | '.' :: '.' :: rest =>
    if endsDescent rest then .ok ([.descent], rest)
    else (readName rest).map fun (name, rest) => ([.descent, .property name], rest)
  | '.' :: '*' :: rest => .ok ([.wildcard], rest)
  | '.' :: rest => (readName rest).map fun (name, rest) => ([.property name], rest)
  | '[' :: rest => (readBracket rest).map fun (selector, rest) => ([selector], rest)
  | '*' :: rest => .ok ([.wildcard], rest)
  | c :: rest => .error ⟨.unexpected c, c :: rest⟩

theorem map_eq_ok_iff {α β : Type} (make : α → β) {read : Except Failure (α × List Char)}
    {value : β} {rest : List Char} :
    (read.map fun (found, rest) => (make found, rest)) = .ok (value, rest)
      ↔ ∃ found, read = .ok (found, rest) ∧ make found = value := by
  cases read with
  | error failure => simp [Except.map]
  | ok result =>
    obtain ⟨found, left⟩ := result
    simp only [Except.map, Except.ok.injEq, Prod.mk.injEq]
    constructor
    · rintro ⟨rfl, rfl⟩
      exact ⟨found, ⟨rfl, rfl⟩, rfl⟩
    · rintro ⟨_, ⟨rfl, rfl⟩, rfl⟩
      exact ⟨rfl, rfl⟩

theorem scanName_suffix {text name rest : List Char} (read : scanName text = .ok (name, rest)) :
    text = name ++ rest := by
  induction text generalizing name rest with
  | nil =>
    obtain ⟨rfl, rfl⟩ := Prod.mk.inj (Except.ok.inj read)
    rfl
  | cons c tail ih =>
    unfold scanName at read
    split at read
    · obtain ⟨rfl, rfl⟩ := Prod.mk.inj (Except.ok.inj read)
      rfl
    · split at read
      · contradiction
      · split at read
        · contradiction
        · obtain ⟨more, inner, rfl⟩ := (map_eq_ok_iff _).mp read
          rw [ih inner, List.cons_append]

theorem readName_suffix {text rest : List Char} {name : String}
    (read : readName text = .ok (name, rest)) : text = name.toList ++ rest ∧ name.toList ≠ [] := by
  unfold readName at read
  split at read
  · contradiction
  · contradiction
  · next content left notEmpty scanned =>
    obtain ⟨rfl, rfl⟩ := Prod.mk.inj (Except.ok.inj read)
    rw [String.toList_ofList]
    exact ⟨scanName_suffix scanned, fun empty => notEmpty (by simp [empty])⟩

theorem scanQuoted_suffix {quote : Char} {text content rest : List Char}
    (read : scanQuoted quote text = some (content, rest)) :
    rest <:+ text ∧ rest.length < text.length := by
  fun_induction scanQuoted quote text generalizing content rest with
  | case1 => contradiction
  | case2 => contradiction
  | case3 c tail ih =>
    simp only [Option.map_eq_some_iff] at read
    obtain ⟨⟨more, left⟩, inner, result⟩ := read
    obtain ⟨-, rfl⟩ := Prod.mk.inj result
    obtain ⟨suffix, shorter⟩ := ih inner
    exact ⟨suffix.trans ⟨['\\', c], rfl⟩, by simp; omega⟩
  | case4 tail =>
    obtain ⟨-, rfl⟩ := Prod.mk.inj (Option.some.inj read)
    exact ⟨⟨_, List.singleton_append⟩, by simp⟩
  | case5 c tail _ _ _ ih =>
    simp only [Option.map_eq_some_iff] at read
    obtain ⟨⟨more, left⟩, inner, result⟩ := read
    obtain ⟨-, rfl⟩ := Prod.mk.inj result
    obtain ⟨suffix, shorter⟩ := ih inner
    exact ⟨suffix.trans ⟨[c], rfl⟩, by simp; omega⟩

theorem readQuoted_suffix {text rest : List Char} {content : String}
    (read : readQuoted text = .ok (content, rest)) :
    rest <:+ text ∧ rest.length < text.length := by
  unfold readQuoted at read
  split at read
  · contradiction
  · next quote tail =>
    split at read
    · next scanned =>
      obtain ⟨-, rfl⟩ := Prod.mk.inj (Except.ok.inj read)
      obtain ⟨suffix, shorter⟩ := scanQuoted_suffix scanned
      exact ⟨suffix.trans ⟨[quote], rfl⟩, by simp; omega⟩
    · contradiction

theorem readIndex_suffix {text rest : List Char} {index : Int}
    (read : readIndex text = .ok (index, rest)) :
    rest <:+ text ∧ rest.length < text.length := by
  unfold readIndex at read
  have signed : (Number.scanSign text).2 <:+ text := by
    unfold Number.scanSign
    split
    · exact ⟨['-'], rfl⟩
    · exact List.suffix_rfl
  have digits := Digit.chars_scan (Number.scanSign text).2
  split at read
  · contradiction
  · next found left notEmpty scanned =>
    obtain ⟨-, rfl⟩ := Prod.mk.inj (Except.ok.inj read)
    rw [scanned] at digits
    have positive : 0 < found.length :=
      List.length_pos_iff.mpr fun empty => notEmpty (by simp [empty])
    refine ⟨List.IsSuffix.trans ⟨_, digits⟩ signed, ?_⟩
    have := signed.length_le
    have := congrArg List.length digits
    simp [Digit.chars] at this
    omega

mutual

theorem scanBody_split {depth : Nat} {text body after : List Char}
    (read : scanBody depth text = some (body, after)) : text = body ++ ')' :: after := by
  match text with
  | [] => simp [scanBody] at read
  | c :: rest =>
    unfold scanBody at read
    split at read
    · next closing =>
      obtain ⟨rfl, rfl⟩ := Prod.mk.inj (Option.some.inj read)
      rw [closing.1]
      rfl
    · simp only [Option.map_eq_some_iff] at read
      obtain ⟨⟨more, left⟩, inner, result⟩ := read
      obtain ⟨rfl, rfl⟩ := Prod.mk.inj result
      split at inner
      · rw [scanBodyQuoted_split inner, List.cons_append]
      · split at inner
        · rw [scanBody_split inner, List.cons_append]
        · split at inner
          · rw [scanBody_split inner, List.cons_append]
          · rw [scanBody_split inner, List.cons_append]
termination_by text.length

theorem scanBodyQuoted_split {depth : Nat} {quote : Char} {text body after : List Char}
    (read : scanBodyQuoted depth quote text = some (body, after)) :
    text = body ++ ')' :: after := by
  unfold scanBodyQuoted at read
  split at read
  · contradiction
  · contradiction
  · next c rest =>
    simp only [Option.map_eq_some_iff] at read
    obtain ⟨⟨more, left⟩, inner, result⟩ := read
    obtain ⟨rfl, rfl⟩ := Prod.mk.inj result
    rw [scanBodyQuoted_split inner]
    rfl
  · next c rest _ _ =>
    simp only [Option.map_eq_some_iff] at read
    obtain ⟨⟨more, left⟩, inner, result⟩ := read
    obtain ⟨rfl, rfl⟩ := Prod.mk.inj result
    split at inner
    · rw [scanBody_split inner, List.cons_append]
    · rw [scanBodyQuoted_split inner, List.cons_append]
termination_by text.length

end

theorem readFilter_suffix {text rest : List Char} {filter : Filter}
    (read : readFilter text = .ok (filter, rest)) : rest <:+ text := by
  unfold readFilter at read
  have skipped : skipBlank text <:+ text := List.dropWhile_suffix _
  split at read
  · next tail shape =>
    split at read
    · contradiction
    · next body after scanned =>
      split at read
      · obtain ⟨-, rfl⟩ := Prod.mk.inj (Except.ok.inj read)
        rw [shape, scanBody_split scanned] at skipped
        exact List.IsSuffix.trans ⟨'(' :: body ++ [')'], by simp⟩ skipped
      · contradiction
  · contradiction

theorem readBracketContent_suffix {whole text rest : List Char} {selector : Selector}
    (read : readBracketContent whole text = .ok (selector, rest)) :
    rest <:+ text ∧ rest.length < text.length := by
  unfold readBracketContent at read
  split at read
  · contradiction
  · obtain ⟨-, rfl⟩ := Prod.mk.inj (Except.ok.inj read)
    exact ⟨⟨['*'], rfl⟩, by simp⟩
  · next tail =>
    obtain ⟨found, inner, -⟩ := (map_eq_ok_iff _).mp read
    have suffix := readFilter_suffix inner
    exact ⟨suffix.trans ⟨['?'], rfl⟩, by have := suffix.length_le; simp; omega⟩
  · next c tail _ _ =>
    split at read
    · obtain ⟨found, inner, -⟩ := (map_eq_ok_iff _).mp read
      exact readQuoted_suffix inner
    · split at read
      · obtain ⟨found, inner, -⟩ := (map_eq_ok_iff _).mp read
        exact readIndex_suffix inner
      · contradiction

theorem readBracket_suffix {text rest : List Char} {selector : Selector}
    (read : readBracket text = .ok (selector, rest)) : rest <:+ text := by
  unfold readBracket at read
  have skipped : skipBlank text <:+ text := List.dropWhile_suffix _
  cases inner : readBracketContent ('[' :: text) (skipBlank text) with
  | error failure => simp [inner, bind, Except.bind] at read
  | ok result =>
    obtain ⟨found, left⟩ := result
    simp only [inner, bind, Except.bind] at read
    have content := (readBracketContent_suffix inner).1.trans skipped
    have more : skipBlank left <:+ left := List.dropWhile_suffix _
    split at read
    · next after shape =>
      obtain ⟨-, rfl⟩ := Prod.mk.inj (Except.ok.inj read)
      rw [shape] at more
      exact (List.IsSuffix.trans ⟨[']'], rfl⟩ more).trans content
    · contradiction
    · contradiction

theorem readSelector_suffix {text rest : List Char} {selectors : List Selector}
    (notEmpty : text ≠ []) (read : readSelector text = .ok (selectors, rest)) :
    rest <:+ text ∧ rest.length < text.length := by
  -- Every selector begins with a mark that is taken.
  have strict (front : List Char) (taken : front ≠ []) (shape : text = front ++ rest) :
      rest <:+ text ∧ rest.length < text.length := by
    have := List.length_pos_iff.mpr taken
    exact ⟨⟨front, shape.symm⟩, by simp [shape]; omega⟩
  unfold readSelector at read
  split at read
  · exact absurd rfl notEmpty
  · next tail =>
    split at read
    · obtain ⟨-, rfl⟩ := Prod.mk.inj (Except.ok.inj read)
      exact strict ['.', '.'] (by simp) rfl
    · obtain ⟨name, inner, -⟩ :=
        (map_eq_ok_iff fun name => [Selector.descent, .property name]).mp read
      have parts := (readName_suffix inner).1
      exact strict ('.' :: '.' :: name.toList) (by simp) (by simp [parts])
  · obtain ⟨-, rfl⟩ := Prod.mk.inj (Except.ok.inj read)
    exact strict ['.', '*'] (by simp) rfl
  · next tail _ _ =>
    obtain ⟨name, inner, -⟩ := (map_eq_ok_iff fun name => [Selector.property name]).mp read
    have parts := (readName_suffix inner).1
    exact strict ('.' :: name.toList) (by simp) (by simp [parts])
  · next tail =>
    obtain ⟨found, inner, -⟩ := (map_eq_ok_iff fun selector => [selector]).mp read
    have suffix := readBracket_suffix inner
    exact ⟨suffix.trans ⟨['['], rfl⟩, by have := suffix.length_le; simp; omega⟩
  · obtain ⟨-, rfl⟩ := Prod.mk.inj (Except.ok.inj read)
    exact strict ['*'] (by simp) rfl
  · contradiction

def readSelectors (text : List Char) : Except Failure (List Selector) :=
  if _notEmpty : text = [] then .ok []
  else
    match _read : readSelector text with
    | .error failure => .error failure
    | .ok (selectors, rest) => (readSelectors rest).map (selectors ++ ·)
termination_by text.length
decreasing_by exact (readSelector_suffix _notEmpty _read).2

def parse (expression : String) : Except SyntaxError Path :=
  let selectors : Except Failure (List Selector) :=
    match expression.toList with
    | [] => .error ⟨.emptyExpression, []⟩
    | '$' :: rest => readSelectors rest
    | text => .error ⟨.missingRoot, text⟩
  match selectors with
  | .ok selectors => .ok ⟨expression, selectors⟩
  | .error failure => .error (failure.locate expression)

end JsonTree.Path
