import JsonTree.Path.Scanner
import JsonTree.Proofs.Path.FilterBody
import JsonTree.Proofs.Path.Messages

/-! Scanning by positions is reading from the front of what is left.

A position stands for the text behind it. Every scanner from a position on does what the reader of
that text does: it gives the same result and ends in front of what the reader leaves, or it ends
with the fault of the reader, at the position of the text that the reader fails with. So no cut is
ever a bad one, and no loop runs out of turns.
-/

set_option autoImplicit false

namespace JsonTree.Path

theorem byteLength_eq_zero_iff {text : List Char} : byteLength text = 0 ↔ text = [] := by
  cases text with
  | nil => simp
  | cons c text =>
    have size := c.utf8Size_pos
    simp only [byteLength_cons, reduceCtorEq, iff_false]
    omega

theorem takeWhile_digits (text : List Char) :
    text.takeWhile (fun c => (Digit.ofChar? c).isSome) = Digit.chars (Digit.scan text).1
      ∧ text.dropWhile (fun c => (Digit.ofChar? c).isSome) = (Digit.scan text).2 := by
  have inside : ∀ c ∈ Digit.chars (Digit.scan text).1, (Digit.ofChar? c).isSome = true :=
    Digit.forall_mem_chars (by decide) _
  have stop : ∀ c ∈ (Digit.scan text).2.head?, (Digit.ofChar? c).isSome = false := by
    intro c front
    obtain ⟨tail, same⟩ := List.head?_eq_some_iff.mp front
    rw [Number.noDigit_scan text c tail same, Option.isSome_none]
  have run := span_run inside stop
  rwa [Digit.chars_scan] at run

def signedChars (negative : Bool) (digits : List Digit) : List Char :=
  (if negative then ['-'] else []) ++ Digit.chars digits

theorem head?_signedChars {negative : Bool} {digits : List Digit} (nonempty : digits ≠ []) :
    (signedChars negative digits).head? = some '-' ↔ negative = true := by
  obtain ⟨first, more, rfl⟩ := List.exists_cons_of_ne_nil nonempty
  cases negative with
  | true => exact iff_of_true rfl rfl
  | false => simpa [signedChars, Digit.chars] using first.toChar_ne_minus

theorem getLast?_signedChars (negative : Bool) (digits : List Digit) :
    (signedChars negative digits).getLast?.any (fun c => (Digit.ofChar? c).isSome)
      = !digits.isEmpty := by
  rcases List.eq_nil_or_concat digits with rfl | ⟨front, last, rfl⟩
  · cases negative <;> rfl
  · simp [signedChars, Digit.chars]

/-- Beyond the range, the end of it on the side of the sign stands in for the value. -/
theorem int64OfText?_signedChars (negative : Bool) {digits : List Digit} (nonempty : digits ≠ []) :
    (int64OfText? (signedChars negative digits)).getD
        (if negative then leastInt64 else greatestInt64)
      = saturate (if negative then -(Digit.value digits : Int) else Digit.value digits) := by
  have sign := Number.scanSign_chars (chars_ne_minus nonempty []) ⟨negative, 0, [], none⟩
  rw [Number.signChars, List.append_nil] at sign
  simp only [int64OfText?, signedChars, sign, Digit.all?_chars nonempty, bind, Option.bind]
  have negativeSide : -(Digit.value digits : Int) ≤ greatestInt64 := by
    unfold greatestInt64
    omega
  have positiveSide : leastInt64 ≤ (Digit.value digits : Int) := by
    unfold leastInt64
    omega
  have ordered : leastInt64 ≤ greatestInt64 := by decide
  generalize (Digit.value digits : Int) = value at negativeSide positiveSide
  unfold saturate
  cases negative with
  | true =>
    simp only [if_true]
    split
    · rw [Option.getD_some]; omega
    · rw [Option.getD_none]; omega
  | false =>
    simp only [Bool.false_eq_true, if_false]
    split
    · rw [Option.getD_some]; omega
    · rw [Option.getD_none]; omega

theorem isPrefixOf_equal {rest : List Char} (noEqual : ∀ tail, rest = '=' :: tail → False) :
    ['='].isPrefixOf rest = false := by
  rw [Bool.eq_false_iff]
  intro front
  obtain ⟨tail, split⟩ := List.isPrefixOf_iff_prefix.mp front
  exact noEqual tail split.symm

theorem find?_longestFirst (text : List Char) :
    Comparator.longestFirst.find? (fun comparator => comparator.chars.isPrefixOf text)
      = (readComparator text).toOption.map Prod.fst := by
  unfold readComparator
  split
  · rfl
  · rfl
  · rfl
  · rfl
  -- An operator of one character is reached only behind those of two, which the text refuses.
  · next rest noEqual =>
    simp [Comparator.longestFirst, Comparator.chars, List.isPrefixOf, isPrefixOf_equal noEqual,
      Except.toOption]
  · next rest noEqual =>
    simp [Comparator.longestFirst, Comparator.chars, List.isPrefixOf, isPrefixOf_equal noEqual,
      Except.toOption]
  · next equal notEqual atLeast atMost greater less =>
    refine List.find?_eq_none.mpr fun comparator _ front => ?_
    obtain ⟨tail, rfl⟩ := List.isPrefixOf_iff_prefix.mp front
    cases comparator with
    | equal => exact equal tail rfl
    | notEqual => exact notEqual tail rfl
    | atLeast => exact atLeast tail rfl
    | atMost => exact atMost tail rfl
    | greater => exact greater tail rfl
    | less => exact less tail rfl

theorem fault_of_readComparator {text : List Char} {failure : Failure}
    (read : readComparator text = .error failure) : failure = ⟨.missingComparator, text⟩ := by
  unfold readComparator at read
  split at read
  case h_7 => exact (Except.error.inj read).symm
  all_goals contradiction

theorem head?_ne {c : Char} {text : List Char} (other : ∀ tail, text = c :: tail → False) :
    text.head? ≠ some c :=
  fun same => (List.head?_eq_some_iff.mp same).elim other

theorem ne_backslash {c : Char} {rest : List Char} (single : c = '\\' → rest = [] → False)
    (pair : ∀ d tail, c = '\\' → rest = d :: tail → False) : c ≠ '\\' := by
  intro same
  cases rest with
  | nil => exact single same rfl
  | cons d tail => exact pair d tail same rfl

theorem begins_quote {quote : Char} {rest : List Char} (mark : isQuote quote = true) :
    Fault.unterminatedString.Begins (quote :: rest) := by
  rcases isQuote_iff.mp mark with rfl | rfl
  · exact ⟨['\''], by decide, rest, rfl⟩
  · exact ⟨['"'], by decide, rest, rfl⟩

theorem exists_turn {size turns : Nat} (enough : size < turns) :
    ∃ later, turns = later + 1 ∧ size ≤ later :=
  ⟨turns - 1, by omega, by omega⟩

def Scanner.At (scanner : Scanner) (position : Nat) (text : List Char) : Prop :=
  ∃ front, scanner.input = front ++ text ∧ byteLength front = position

/-- A scan and a reading with related results, or with the same fault at the same place, where
what the fault is about stands. -/
inductive Agrees (scanner : Scanner) {α β : Type} (same : α → β → Prop) :
    Scan α → Except Failure β → Prop where
  | read {result : α} {other : β} : same result other →
      Agrees scanner same (pure result) (.ok other)
  | refused {position : Nat} {rest : List Char} (fault : Fault) : scanner.At position rest →
      fault.Begins rest → Agrees scanner same (scanner.refuse position fault) (.error ⟨fault, rest⟩)

def Scanner.Behind (scanner : Scanner) {α : Type} (result : α × Nat) (other : α × List Char) :
    Prop :=
  result.1 = other.1 ∧ scanner.At result.2 other.2

section

variable {scanner : Scanner} {position : Nat} {text : List Char} {α β γ δ : Type}

theorem Agrees.bind {same : α → β → Prop} {other : γ → δ → Prop} {scan : Scan α}
    {read : Except Failure β} {next : α → Scan γ} {later : β → Except Failure δ}
    (agrees : Agrees scanner same scan read)
    (step : ∀ result value, same result value → Agrees scanner other (next result) (later value)) :
    Agrees scanner other (scan >>= next) (read >>= later) := by
  cases agrees with
  | read related =>
    rw [pure_bind]
    exact step _ _ related
  | refused fault there front => exact .refused fault there front

theorem Agrees.map {same : α → β → Prop} {other : γ → δ → Prop} {scan : Scan α}
    {read : Except Failure β} {next : α → Scan γ} {make : β → δ}
    (agrees : Agrees scanner same scan read)
    (step : ∀ result value, same result value →
      Agrees scanner other (next result) (.ok (make value))) :
    Agrees scanner other (scan >>= next) (read.map make) := by
  have through : read.map make = read >>= fun value => .ok (make value) := by cases read <;> rfl
  rw [through]
  exact agrees.bind step

theorem Agrees.imp {same : α → β → Prop} {other : α → δ → Prop} {scan : Scan α}
    {read : Except Failure β} {make : β → δ} (agrees : Agrees scanner same scan read)
    (step : ∀ result value, same result value → other result (make value)) :
    Agrees scanner other scan (read.map make) := by
  rw [← bind_pure scan]
  exact agrees.map fun result value related => .read (step result value related)

namespace Scanner.At

theorem remaining (here : scanner.At position text) : scanner.remaining position = pure text := by
  obtain ⟨front, split, rfl⟩ := here
  rw [Scanner.remaining, split, cutBytes_append]

theorem peek? (here : scanner.At position text) : scanner.peek? position = pure text.head? := by
  rw [Scanner.peek?, here.remaining, pure_bind]

theorem behind {piece rest : List Char} (here : scanner.At position (piece ++ rest)) :
    scanner.At (position + byteLength piece) rest := by
  obtain ⟨front, split, rfl⟩ := here
  exact ⟨front ++ piece, by rw [split, List.append_assoc], byteLength_append _ _⟩

theorem next {c : Char} (here : scanner.At position (c :: text)) :
    scanner.At (position + c.utf8Size) text := by
  rw [← List.singleton_append] at here
  exact here.behind

theorem bump {c : Char} (here : scanner.At position (c :: text)) :
    scanner.bump position = pure (some c, position + c.utf8Size) := by
  rw [Scanner.bump, here.peek?, pure_bind]
  rfl

theorem bump_end (here : scanner.At position []) :
    scanner.bump position = pure (none, position) := by
  rw [Scanner.bump, here.peek?, pure_bind]
  rfl

theorem slice {piece rest : List Char} (here : scanner.At position (piece ++ rest)) :
    scanner.slice position (position + byteLength piece) = pure piece := by
  rw [Scanner.slice, if_neg (Nat.not_lt.mpr (Nat.le_add_right _ _)), Nat.add_sub_cancel_left,
    here.remaining]
  simp only [pure_bind, cutBytes_append]

/-- Every scanner has a turn for each character that is left, and one more. -/
theorem enough (here : scanner.At position text) : text.length < scanner.turns := by
  obtain ⟨front, split, rfl⟩ := here
  rw [turns, split, List.length_append]
  omega

theorem skipWhile_eq (accepts : Char → Bool) {turns : Nat} (enough : text.length < turns)
    (here : scanner.At position text) :
    scanner.skipWhile accepts turns position
      = pure (position + byteLength (text.takeWhile accepts)) := by
  induction text generalizing position turns with
  | nil =>
    obtain ⟨turns, rfl, -⟩ := exists_turn enough
    rw [Scanner.skipWhile, here.peek?, pure_bind]
    rfl
  | cons c text ih =>
    obtain ⟨turns, rfl, left⟩ := exists_turn enough
    rw [Scanner.skipWhile, here.peek?, pure_bind, here.bump, pure_bind, ih left here.next]
    cases accepted : accepts c <;> simp [accepted, Nat.add_assoc]

theorem skipWhile (accepts : Char → Bool) (here : scanner.At position text) :
    scanner.skipWhile accepts scanner.turns position
      = pure (position + byteLength (text.takeWhile accepts)) :=
  here.skipWhile_eq accepts here.enough

theorem behind_takeWhile (accepts : Char → Bool) (here : scanner.At position text) :
    scanner.At (position + byteLength (text.takeWhile accepts)) (text.dropWhile accepts) := by
  rw [← List.takeWhile_append_dropWhile (p := accepts) (l := text)] at here
  exact here.behind

theorem skipName {turns : Nat} (enough : text.length < turns) (here : scanner.At position text) :
    Agrees scanner
      (fun last result => text = result.1 ++ result.2 ∧ last = position + byteLength result.1)
      (scanner.skipName turns position) (scanName text) := by
  induction text generalizing position turns with
  | nil =>
    obtain ⟨turns, rfl, -⟩ := exists_turn enough
    rw [Scanner.skipName, here.peek?, pure_bind]
    exact .read ⟨rfl, rfl⟩
  | cons c text ih =>
    obtain ⟨turns, rfl, left⟩ := exists_turn enough
    rw [Scanner.skipName, here.peek?, pure_bind, here.bump, scanName]
    dsimp only [List.head?_cons]
    split
    · exact .read ⟨rfl, rfl⟩
    · split
      · exact .refused _ here (.cons rfl)
      · split
        · exact .refused _ here (.any rfl)
        · rw [pure_bind]
          refine (ih left here.next).imp fun last result known => ⟨congrArg (c :: ·) known.1, ?_⟩
          rw [known.2, byteLength_cons, Nat.add_assoc]

theorem name (here : scanner.At position text) :
    Agrees scanner scanner.Behind (scanner.name position) (readName text) := by
  have skipped := here.skipName here.enough
  unfold Scanner.name readName
  generalize scanner.skipName scanner.turns position = scan at skipped
  generalize scanName text = read at skipped
  cases skipped with
  | refused fault there front => exact .refused fault there front
  | @read last result known =>
    obtain ⟨name, rest⟩ := result
    obtain ⟨rfl, rfl⟩ := known
    have same : position + byteLength name = position ↔ name = [] := by
      rw [← byteLength_eq_zero_iff]
      omega
    rw [pure_bind]
    cases name with
    | nil =>
      rw [if_pos (same.mpr rfl)]
      exact .refused _ here (.any rfl)
    | cons c name =>
      rw [if_neg (mt same.mp (List.cons_ne_nil _ _)), here.slice, pure_bind]
      exact .read ⟨rfl, here.behind⟩

theorem quotedText {opening turns : Nat} {whole : List Char} (quote : Char) (content : List Char)
    (start : scanner.At opening whole) (mark : Fault.unterminatedString.Begins whole)
    (enough : text.length < turns) (here : scanner.At position text) :
    Agrees scanner scanner.Behind (scanner.quotedText opening quote turns content position)
      (match scanQuoted quote text with
        | some (more, rest) => .ok (String.ofList (content ++ more), rest)
        | none => .error ⟨.unterminatedString, whole⟩) := by
  fun_induction scanQuoted quote text generalizing position content turns with
  | case1 =>
    obtain ⟨turns, rfl, -⟩ := exists_turn enough
    rw [Scanner.quotedText, here.bump_end, pure_bind]
    exact .refused _ start mark
  | case2 =>
    obtain ⟨turns, rfl, -⟩ := exists_turn enough
    rw [Scanner.quotedText, here.bump, pure_bind]
    dsimp only
    rw [if_pos rfl, here.next.bump_end, pure_bind]
    exact .refused _ start mark
  | case3 c rest ih =>
    -- One turn takes the backslash and the character behind it.
    obtain ⟨turns, rfl, left⟩ := exists_turn enough
    have later := ih (content ++ [c]) (Nat.lt_of_succ_lt left) here.next.next
    rw [Scanner.quotedText, here.bump, pure_bind]
    dsimp only
    rw [if_pos rfl, here.next.bump, pure_bind]
    cases found : scanQuoted quote rest with
    | none => rw [found] at later; exact later
    | some result => rw [found] at later; simpa using later
  | case4 rest single pair =>
    obtain ⟨turns, rfl, -⟩ := exists_turn enough
    have noBackslash := ne_backslash single pair
    rw [Scanner.quotedText, here.bump, pure_bind]
    dsimp only
    rw [if_neg noBackslash, if_pos rfl, List.append_nil]
    exact .read ⟨rfl, here.next⟩
  | case5 c rest single pair differ ih =>
    obtain ⟨turns, rfl, left⟩ := exists_turn enough
    have noBackslash := ne_backslash single pair
    have later := ih (content ++ [c]) left here.next
    rw [Scanner.quotedText, here.bump, pure_bind]
    dsimp only
    rw [if_neg noBackslash, if_neg differ]
    cases found : scanQuoted quote rest with
    | none => rw [found] at later; exact later
    | some result => rw [found] at later; simpa using later

theorem quoted {quote : Char} (mark : isQuote quote = true)
    (here : scanner.At position (quote :: text)) :
    Agrees scanner scanner.Behind (scanner.quoted quote position)
      (readQuoted (quote :: text)) := by
  have later := quotedText quote [] here (begins_quote mark) here.next.enough here.next
  rw [Scanner.quoted, here.bump, pure_bind, readQuoted]
  cases found : scanQuoted quote text with
  | none => rw [found] at later; exact later
  | some result => rw [found] at later; exact later

theorem skipMinus (here : scanner.At position text) :
    scanner.skipMinus position
      = pure (position + byteLength (signedChars (Number.scanSign text).1 [])) := by
  unfold Number.scanSign
  split
  · rw [Scanner.skipMinus, here.peek?, pure_bind, List.head?_cons, if_pos rfl, here.bump, pure_bind]
    rfl
  · next noMinus =>
    rw [Scanner.skipMinus, here.peek?, pure_bind, if_neg (head?_ne noMinus)]
    rfl

theorem index (here : scanner.At position text) :
    Agrees scanner scanner.Behind (scanner.index position) (readIndex text) := by
  have sign := here.skipMinus
  have split := Number.scanSign_split text
  unfold Scanner.index readIndex
  generalize Number.scanSign text = signed at sign split
  obtain ⟨negative, unsigned⟩ := signed
  obtain ⟨run, left⟩ := takeWhile_digits unsigned
  have taken := Digit.chars_scan unsigned
  generalize Digit.scan unsigned = scanned at run left taken
  obtain ⟨digits, rest⟩ := scanned
  dsimp only at sign split run left taken ⊢
  -- The sign is passed first and then the digits, and both are cut out together.
  have front : scanner.At position (signedChars negative [] ++ unsigned) := by
    rw [signedChars, Digit.chars, List.map_nil, List.append_nil, split]
    exact here
  have both : signedChars negative digits = signedChars negative [] ++ Digit.chars digits := by
    simp [signedChars, Digit.chars]
  have whole : scanner.At position (signedChars negative digits ++ rest) := by
    rw [both, List.append_assoc, taken]
    exact front
  rw [sign, pure_bind, front.behind.skipWhile, run, pure_bind, Nat.add_assoc, ← byteLength_append,
    ← both, whole.slice, pure_bind, getLast?_signedChars]
  cases digits with
  | nil => exact .refused _ here (.any rfl)
  | cons first more =>
    have nonempty : first :: more ≠ [] := List.cons_ne_nil _ _
    have bound := int64OfText?_signedChars negative nonempty
    rw [List.isEmpty_cons, Bool.not_false, if_pos rfl]
    simp only [head?_signedChars nonempty, bound]
    exact .read ⟨rfl, whole.behind⟩

theorem fields_cons (turns : Nat) (names : List String)
    (nonempty : text.takeWhile isFieldChar ≠ []) (here : scanner.At position ('.' :: text)) :
    ∃ last, scanner.At last (text.dropWhile isFieldChar)
      ∧ scanner.fields (turns + 1) names position
        = scanner.fields turns (names ++ [String.ofList (text.takeWhile isFieldChar)]) last := by
  have start := here.next
  have moved : position + '.'.utf8Size + byteLength (text.takeWhile isFieldChar)
      ≠ position + '.'.utf8Size :=
    fun same => nonempty (byteLength_eq_zero_iff.mp (Nat.add_eq_left.mp same))
  refine ⟨_, start.behind_takeWhile isFieldChar, ?_⟩
  rw [Scanner.fields, here.peek?, pure_bind, List.head?_cons, if_pos rfl, here.bump, pure_bind]
  dsimp only
  rw [start.skipWhile, pure_bind, if_neg moved]
  rw [← List.takeWhile_append_dropWhile (p := isFieldChar) (l := text)] at start
  rw [start.slice, pure_bind]

theorem fields {turns : Nat} (names : List String) (enough : text.length < turns)
    (here : scanner.At position text) :
    Agrees scanner scanner.Behind (scanner.fields turns names position)
      ((readField text).map fun (more, rest) => (names ++ more, rest)) := by
  fun_induction readField text generalizing names position turns with
  | case1 rest empty =>
    obtain ⟨turns, rfl, -⟩ := exists_turn enough
    rw [Scanner.fields, here.peek?, pure_bind, List.head?_cons, if_pos rfl, here.bump, pure_bind]
    dsimp only
    rw [here.next.skipWhile, empty, pure_bind, byteLength_nil, Nat.add_zero, if_pos rfl]
    exact .refused _ here.next (.any rfl)
  | case2 rest more left read nonempty ih =>
    obtain ⟨turns, rfl, left⟩ := exists_turn enough
    -- A turn takes a point and a name, and what is left needs fewer turns.
    obtain ⟨last, behind, same⟩ := here.fields_cons turns names nonempty
    have shorter := (List.dropWhile_suffix (l := rest) isFieldChar).length_le
    have later := ih (names ++ [String.ofList (rest.takeWhile isFieldChar)])
      (Nat.lt_of_le_of_lt shorter left) behind
    rw [read] at later
    simp only [Except.map, List.append_assoc, List.singleton_append] at later
    rw [same]
    exact later
  | case3 rest failure read nonempty ih =>
    obtain ⟨turns, rfl, left⟩ := exists_turn enough
    obtain ⟨last, behind, same⟩ := here.fields_cons turns names nonempty
    have shorter := (List.dropWhile_suffix (l := rest) isFieldChar).length_le
    have later := ih (names ++ [String.ofList (rest.takeWhile isFieldChar)])
      (Nat.lt_of_le_of_lt shorter left) behind
    rw [read] at later
    rw [same]
    exact later
  | case4 text noPoint =>
    obtain ⟨turns, rfl, -⟩ := exists_turn enough
    rw [Scanner.fields, here.peek?, pure_bind, if_neg (head?_ne noPoint)]
    exact .read ⟨(List.append_nil names).symm, here⟩

theorem comparator (here : scanner.At position text) :
    Agrees scanner scanner.Behind (scanner.comparator position) (readComparator text) := by
  rw [Scanner.comparator, here.remaining, pure_bind, find?_longestFirst]
  cases read : readComparator text with
  | error failure =>
    rw [fault_of_readComparator read]
    exact .refused _ here (.any rfl)
  | ok result =>
    obtain ⟨comparator, rest⟩ := result
    have split := (operator_of_readComparator read).split
    rw [split] at here
    exact .read ⟨rfl, here.behind⟩

theorem word (noQuote : text.head?.any isQuote = false) (here : scanner.At position text) :
    Agrees scanner scanner.Behind (scanner.word position) (readLiteral text) := by
  have whole := here
  rw [← List.takeWhile_append_dropWhile (p := isWordChar) (l := text)] at whole
  rw [Scanner.word, here.skipWhile, pure_bind, whole.slice, pure_bind, readLiteral, noQuote,
    if_neg Bool.false_ne_true]
  have split := List.takeWhile_append_dropWhile (p := isWordChar) (l := text)
  generalize text.takeWhile isWordChar = word at whole split
  cases word with
  | nil => exact .refused _ here (.any rfl)
  | cons c word =>
    dsimp only
    cases Literal.ofWord? (c :: word) with
    | none =>
      have member := List.mem_singleton.mpr (String.toList_ofList (l := c :: word)).symm
      exact .refused _ here ⟨c :: word, member, _, split⟩
    | some literal => exact .read ⟨rfl, whole.behind⟩

theorem literal (here : scanner.At position text) :
    Agrees scanner scanner.Behind (scanner.literal position) (readLiteral text) := by
  rw [Scanner.literal, here.peek?, pure_bind]
  cases text with
  | nil => exact here.word rfl
  | cons c text =>
    rw [List.head?_cons]
    dsimp only
    cases mark : isQuote c with
    | false => exact here.word mark
    | true =>
      have front : (c :: text).head?.any isQuote = true := mark
      rw [if_pos rfl, readLiteral, if_pos front]
      exact (here.quoted mark).map fun _ _ known => .read ⟨congrArg Literal.string known.1, known.2⟩

theorem blanks (here : scanner.At position text) :
    ∃ last, scanner.skipBlanks position = pure last ∧ scanner.At last (skipBlank text) :=
  ⟨_, here.skipWhile isWhitespace, here.behind_takeWhile isWhitespace⟩

theorem allFields (here : scanner.At position text) :
    Agrees scanner scanner.Behind (scanner.fields scanner.turns [] position) (readField text) := by
  have all := here.fields [] here.enough
  cases read : readField text with
  | error failure => rw [read] at all; exact all
  | ok result => rw [read] at all; exact all

theorem eq_end_iff (here : scanner.At position text) :
    position = byteLength scanner.input ↔ text = [] := by
  obtain ⟨front, split, rfl⟩ := here
  rw [split, byteLength_append, ← byteLength_eq_zero_iff]
  omega

end Scanner.At

theorem readComparison_item (body : List Char) :
    (∃ rest, skipBlank body = '@' :: '.' :: rest)
      ∨ ['@', '.'].isPrefixOf (skipBlank body) = false
        ∧ readComparison body = .error ⟨.missingItem, skipBlank body⟩ := by
  by_cases front : ['@', '.'].isPrefixOf (skipBlank body) = true
  · obtain ⟨rest, same⟩ := List.isPrefixOf_iff_prefix.mp front
    exact .inl ⟨rest, same.symm⟩
  · refine .inr ⟨Bool.eq_false_iff.mpr front, ?_⟩
    unfold readComparison
    dsimp only
    split
    · next same => rw [same] at front; exact absurd rfl front
    · rfl

theorem Scanner.comparison_agrees {body : List Char} (whole : scanner.input = body) :
    Agrees scanner Eq scanner.comparison (readComparison body) := by
  have start : scanner.At 0 body := ⟨[], whole, rfl⟩
  obtain ⟨item, skipped, here⟩ := start.blanks
  rw [Scanner.comparison, skipped, pure_bind, here.remaining, pure_bind]
  rcases readComparison_item body with ⟨rest, shape⟩ | ⟨missing, failed⟩
  · rw [shape] at here
    rw [readComparison, shape, if_pos (by rfl)]
    have fields := here.next.allFields
    refine fields.bind ?_
    rintro ⟨names, last⟩ ⟨_, text⟩ ⟨rfl, behind⟩
    obtain ⟨last, skipped, here⟩ := behind.blanks
    dsimp only
    rw [skipped, pure_bind]
    refine Agrees.bind here.comparator ?_
    rintro ⟨comparator, last⟩ ⟨_, text⟩ ⟨rfl, behind⟩
    obtain ⟨last, skipped, here⟩ := behind.blanks
    dsimp only
    rw [skipped, pure_bind]
    refine Agrees.bind here.literal ?_
    rintro ⟨literal, last⟩ ⟨_, text⟩ ⟨rfl, behind⟩
    obtain ⟨last, skipped, here⟩ := behind.blanks
    -- The scanner compares positions where the reader looks for an empty rest.
    have finished := here.eq_end_iff
    dsimp only
    rw [skipped, pure_bind]
    rw [whole] at finished ⊢
    generalize skipBlank text = left at here finished
    cases left with
    | nil =>
      rw [if_pos (finished.mpr rfl)]
      exact .read rfl
    | cons c left =>
      rw [if_neg (mt finished.mp (List.cons_ne_nil _ _))]
      exact .refused _ here (.any rfl)
  · rw [failed, missing, if_neg Bool.false_ne_true]
    exact .refused _ here (.any rfl)

end

theorem counted_cons (c : Char) (offset : Nat) (inner : Option (List Char × List Char)) :
    (inner.map fun (body, after) => (c :: body, after)).map
        (fun found => offset + byteLength found.1)
      = inner.map fun found => offset + c.utf8Size + byteLength found.1 := by
  cases inner with
  | none => rfl
  | some found => simp [Nat.add_assoc]

-- The offset that is counted is the length of the body that the reader takes.
mutual

theorem findClosing_scanBody (depth offset : Nat) (text : List Char) :
    findClosing depth none false offset text
      = (scanBody depth text).map fun found => offset + byteLength found.1 := by
  match text with
  | [] => rw [findClosing, scanBody, Option.map_none]
  | c :: rest =>
    rw [findClosing, scanBody]
    dsimp only
    by_cases quote : isQuote c = true
    · have open_ : ¬ (c = ')' ∧ depth = 0) := fun both => by
        rw [both.1] at quote
        contradiction
      rw [if_pos quote, if_neg open_, if_pos quote, counted_cons]
      exact findClosing_scanBodyQuoted depth _ c rest
    · by_cases closes : c = ')' ∧ depth = 0
      · obtain ⟨rfl, rfl⟩ := closes
        rfl
      · rw [if_neg quote, if_neg closes, if_neg quote, counted_cons]
        split
        · exact findClosing_scanBody (depth + 1) _ rest
        · split
          · next mark =>
            rw [if_neg fun zero => closes ⟨mark, zero⟩]
            exact findClosing_scanBody (depth - 1) _ rest
          · exact findClosing_scanBody depth _ rest
termination_by text.length

theorem findClosing_scanBodyQuoted (depth offset : Nat) (quote : Char) (text : List Char) :
    findClosing depth (some quote) false offset text
      = (scanBodyQuoted depth quote text).map fun found => offset + byteLength found.1 := by
  unfold scanBodyQuoted
  split
  · rfl
  · rfl
  · next c rest =>
    have later := findClosing_scanBodyQuoted depth (offset + '\\'.utf8Size + c.utf8Size) quote rest
    rw [findClosing, if_neg Bool.false_ne_true, if_pos rfl, findClosing, if_pos rfl, later]
    cases scanBodyQuoted depth quote rest with
    | none => rfl
    | some found => simp [Nat.add_assoc]
  · next c rest single pair =>
    have noBackslash := ne_backslash single pair
    rw [findClosing, if_neg Bool.false_ne_true, if_neg noBackslash, counted_cons]
    by_cases closes : c = quote
    · rw [if_pos closes, if_pos closes]
      exact findClosing_scanBody depth _ rest
    · rw [if_neg closes, if_neg closes]
      exact findClosing_scanBodyQuoted depth _ quote rest
termination_by text.length

end

section

variable {scanner : Scanner} {position : Nat} {text : List Char}

theorem Scanner.At.inBody {body after rest : List Char} {start inner : Nat}
    (outer : scanner.At start (body ++ ')' :: after))
    (here : Scanner.At ⟨scanner.source, body, scanner.base + start⟩ inner rest) :
    scanner.At (start + inner) (rest ++ ')' :: after) := by
  obtain ⟨front, split, rfl⟩ := here
  dsimp only at split
  rw [split, List.append_assoc] at outer
  exact outer.behind

/-- What the scanner of a body comes to, told by the scanner of the whole text. -/
theorem Agrees.inBody {body after : List Char} {start : Nat} {scan : Scan Filter}
    {read : Except Failure Filter} (outer : scanner.At start (body ++ ')' :: after)) :
    Agrees ⟨scanner.source, body, scanner.base + start⟩ Eq scan read →
      Agrees scanner scanner.Behind
        (do let filter ← scan; pure (filter, start + byteLength body + 1))
        (match read with
          | .ok filter => .ok (filter, after)
          | .error failure => .error ⟨failure.fault, failure.rest ++ ')' :: after⟩) := by
  intro agrees
  cases agrees with
  | read same =>
    rw [pure_bind, same]
    exact .read ⟨rfl, outer.behind.next⟩
  | @refused inner rest fault there front =>
    have rebased : Scanner.refuse ⟨scanner.source, body, scanner.base + start⟩ inner fault
        = (scanner.refuse (start + inner) fault : Scan Filter) := by
      rw [Scanner.refuse, Scanner.refuse, Nat.add_assoc]
    -- What stands in the body stands in the whole text, in front of the closing parenthesis.
    rw [rebased]
    exact .refused fault (outer.inBody there) (front.append _)

theorem Scanner.At.filter (here : scanner.At position text) :
    Agrees scanner scanner.Behind (scanner.filter position) (readFilter text) := by
  obtain ⟨opening, skipped, here⟩ := here.blanks
  unfold readFilter
  generalize skipBlank text = text at here
  split
  · next rest =>
    rw [Scanner.filter, skipped, pure_bind, here.peek?, pure_bind, List.head?_cons, if_pos rfl,
      here.bump, pure_bind]
    dsimp only
    rw [here.next.remaining, pure_bind, findClosing_scanBody]
    cases scanned : scanBody 0 rest with
    | none => exact .refused _ here (.cons rfl)
    | some found =>
      obtain ⟨body, after⟩ := found
      have inside := here.next
      rw [scanBody_split scanned] at inside
      simp only [Option.map_some, Nat.zero_add]
      rw [inside.slice, pure_bind]
      exact (Scanner.comparison_agrees rfl).inBody inside
  · next noOpening =>
    rw [Scanner.filter, skipped, pure_bind, here.peek?, pure_bind, if_neg (head?_ne noOpening)]
    exact .refused _ here (.any rfl)

theorem Scanner.At.bracketContent {opening : Nat} {inside : List Char}
    (start : scanner.At opening ('[' :: inside)) (here : scanner.At position text) :
    Agrees scanner scanner.Behind (scanner.bracketContent opening position)
      (readBracketContent ('[' :: inside) text) := by
  unfold readBracketContent
  split
  · rw [Scanner.bracketContent, here.peek?, pure_bind]
    exact .refused _ start (.cons rfl)
  · rw [Scanner.bracketContent, here.peek?, pure_bind, List.head?_cons]
    dsimp only
    rw [here.bump, pure_bind]
    exact .read ⟨rfl, here.next⟩
  · rw [Scanner.bracketContent, here.peek?, pure_bind, List.head?_cons]
    dsimp only
    rw [here.bump, pure_bind]
    exact here.next.filter.map fun _ _ known => .read ⟨congrArg Selector.filter known.1, known.2⟩
  · next c rest noStar noMark =>
    rw [Scanner.bracketContent, here.peek?, pure_bind, List.head?_cons]
    split
    · contradiction
    · next same => exact absurd (Option.some.inj same) noStar
    · next same => exact absurd (Option.some.inj same) noMark
    · next d _ _ same =>
      obtain rfl := Option.some.inj same
      split
      · next mark =>
        exact (here.quoted mark).map fun _ _ known =>
          .read ⟨congrArg Selector.property known.1, known.2⟩
      · split
        · exact here.index.map fun _ _ known => .read ⟨congrArg Selector.index known.1, known.2⟩
        · exact .refused _ here (.any rfl)

theorem Scanner.At.bracket (here : scanner.At position ('[' :: text)) :
    Agrees scanner scanner.Behind (scanner.bracket position) (readBracket text) := by
  obtain ⟨inside, skipped, content⟩ := here.next.blanks
  rw [Scanner.bracket, here.bump, pure_bind]
  dsimp only
  rw [skipped, pure_bind]
  refine Agrees.bind (here.bracketContent content) ?_
  rintro ⟨selector, last⟩ ⟨_, rest⟩ ⟨rfl, behind⟩
  obtain ⟨last, skipped, behind⟩ := behind.blanks
  dsimp only
  rw [skipped, pure_bind]
  generalize skipBlank rest = left at behind
  -- At the end of the text the error is about the opening bracket, else about what is there.
  cases left with
  | nil =>
    rw [behind.bump_end, pure_bind]
    exact .refused _ here (.cons rfl)
  | cons c left =>
    rw [behind.bump, pure_bind]
    by_cases closes : c = ']'
    · subst closes
      exact .read ⟨rfl, behind.next⟩
    · split
      · next same => exact absurd (Option.some.inj (Prod.mk.inj same).1) closes
      · next same => cases (Prod.mk.inj same).1
      · next same =>
        obtain rfl := Option.some.inj (Prod.mk.inj same).1
        split
        · next same => exact absurd (List.cons.inj same).1 closes
        · contradiction
        · next same =>
          obtain ⟨rfl, rfl⟩ := List.cons.inj same
          exact .refused _ behind (.cons rfl)

theorem Scanner.At.descent (here : scanner.At position text) :
    Agrees scanner scanner.Behind (scanner.descent position)
      (if endsDescent text then .ok ([.descent], text)
        else (readName text).map fun (name, rest) => ([.descent, .property name], rest)) := by
  have ends : text.head?.all (fun c => c == '.' || c == '[' || c == '*') = endsDescent text := by
    cases text <;> rfl
  rw [Scanner.descent, here.peek?, pure_bind, ends]
  split
  · exact .read ⟨rfl, here⟩
  · exact here.name.map fun _ _ known =>
      .read ⟨congrArg (fun name => [Selector.descent, .property name]) known.1, known.2⟩

theorem Scanner.At.segment {c : Char} (here : scanner.At position (c :: text)) :
    Agrees scanner scanner.Behind (scanner.segment c position) (readSelector (c :: text)) := by
  unfold readSelector
  split
  · contradiction
  · next rest same =>
    obtain ⟨rfl, rfl⟩ := List.cons.inj same
    rw [Scanner.segment, if_pos rfl, here.remaining, pure_bind, if_pos (by rfl)]
    exact here.next.next.descent
  · next rest same =>
    obtain ⟨rfl, rfl⟩ := List.cons.inj same
    rw [Scanner.segment, if_pos rfl, here.remaining, pure_bind, if_neg (by simp), here.bump,
      pure_bind]
    dsimp only
    rw [Scanner.member, here.next.peek?, pure_bind, List.head?_cons, if_pos rfl, here.next.bump,
      pure_bind]
    exact .read ⟨rfl, here.next.next⟩
  · next rest noPoint noStar same =>
    obtain ⟨rfl, rfl⟩ := List.cons.inj same
    -- The scanner looks two characters ahead, and the reader at the text behind the point.
    have second : ('.' :: text)[1]? = text.head? := by cases text <;> rfl
    rw [Scanner.segment, if_pos rfl, here.remaining, pure_bind, second, if_neg (head?_ne noPoint),
      here.bump, pure_bind]
    dsimp only
    rw [Scanner.member, here.next.peek?, pure_bind, if_neg (head?_ne noStar)]
    exact here.next.name.map fun _ _ known =>
      .read ⟨congrArg (fun name => [Selector.property name]) known.1, known.2⟩
  · next rest same =>
    obtain ⟨rfl, rfl⟩ := List.cons.inj same
    rw [Scanner.segment, if_neg (by decide), if_pos rfl]
    exact here.bracket.map fun _ _ known =>
      .read ⟨congrArg (fun selector => [selector]) known.1, known.2⟩
  · next rest same =>
    obtain ⟨rfl, rfl⟩ := List.cons.inj same
    rw [Scanner.segment, if_neg (by decide), if_neg (by decide), if_pos rfl, here.bump, pure_bind]
    exact .read ⟨rfl, here.next⟩
  · next noPoint noBracket noStar same =>
    obtain ⟨rfl, rfl⟩ := List.cons.inj same
    rw [Scanner.segment, if_neg noPoint, if_neg noBracket, if_neg noStar]
    exact .refused _ here (.cons rfl)

theorem Scanner.At.selectors {turns : Nat} (found : List Selector)
    (enough : text.length < turns) (here : scanner.At position text) :
    Agrees scanner Eq (scanner.selectors turns found position)
      ((readSelectors text).map (found ++ ·)) := by
  fun_induction readSelectors text generalizing found position turns with
  | case1 =>
    obtain ⟨turns, rfl, -⟩ := exists_turn enough
    rw [Scanner.selectors, here.peek?, pure_bind]
    exact .read (List.append_nil found).symm
  | case2 text nonempty failure read =>
    obtain ⟨turns, rfl, -⟩ := exists_turn enough
    obtain ⟨c, tail, rfl⟩ := List.exists_cons_of_ne_nil nonempty
    have segment := here.segment
    rw [Scanner.selectors, here.peek?, pure_bind, List.head?_cons]
    dsimp only
    rw [read] at segment
    generalize scanner.segment c position = scan at segment
    cases segment with
    | refused fault there front => exact .refused fault there front
  | case3 text nonempty more rest read ih =>
    -- A turn pays for itself with the characters that its segment takes.
    obtain ⟨turns, rfl, left⟩ := exists_turn enough
    have shorter := (readSelector_suffix nonempty read).2
    obtain ⟨c, tail, rfl⟩ := List.exists_cons_of_ne_nil nonempty
    have segment := here.segment
    rw [Scanner.selectors, here.peek?, pure_bind, List.head?_cons]
    dsimp only
    rw [read] at segment
    generalize scanner.segment c position = scan at segment
    cases segment with
    | @read result _ behind =>
      obtain ⟨first, last⟩ := result
      obtain ⟨rfl, behind⟩ := behind
      have later := ih (found ++ first) (Nat.lt_of_lt_of_le shorter left) behind
      rw [pure_bind]
      cases left : readSelectors rest with
      | error failure => rw [left] at later; exact later
      | ok others =>
        rw [left] at later
        simp only [Except.map, List.append_assoc] at later
        exact later

theorem Scanner.At.allSelectors (here : scanner.At position text) :
    Agrees scanner Eq (scanner.selectors scanner.turns [] position) (readSelectors text) := by
  have all := here.selectors [] here.enough
  cases read : readSelectors text with
  | error failure => rw [read] at all; exact all
  | ok selectors => rw [read] at all; exact all

end

end JsonTree.Path
