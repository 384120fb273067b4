import JsonTree.Proofs.Path.Scanning

/-! Expressions that are no paths, and where they go wrong.

The scanner and the reader agree on every expression. An error stands where the text is that the
reader fails with, and what its message names is at the front of that text, in the body of a
filter as elsewhere.
-/

set_option autoImplicit false

namespace JsonTree.Path

variable (expression : String)

theorem parse_cases :
    expression.toList = [] ∧ parse expression
        = .error (Failure.locate ⟨.emptyExpression, expression.toList⟩ expression)
      ∨ (∃ rest, expression.toList = '$' :: rest ∧ parse expression
        = match readSelectors rest with
          | .ok selectors => .ok ⟨expression, selectors⟩
          | .error failure => .error (failure.locate expression))
      ∨ ∃ c rest, expression.toList = c :: rest ∧ c ≠ '$' ∧ parse expression
        = .error (Failure.locate ⟨.missingRoot, expression.toList⟩ expression) := by
  unfold parse
  split
  · next empty => exact .inl ⟨empty, by rw [empty]⟩
  · next rest root => exact .inr (.inl ⟨rest, root, rfl⟩)
  · next empty noRoot =>
    obtain ⟨c, rest, shape⟩ := List.exists_cons_of_ne_nil empty
    refine .inr (.inr ⟨c, rest, shape, fun root => noRoot rest ?_, rfl⟩)
    rw [shape, root]

/-- The scanner of an expression agrees with a reading that the parser gives. -/
theorem compile_agrees :
    ∃ read : Except Failure Path,
      Agrees ⟨expression, expression.toList, 0⟩ Eq (compile expression) read
        ∧ parse expression = read.mapError (·.locate expression) := by
  have start : Scanner.At ⟨expression, expression.toList, 0⟩ 0 expression.toList := ⟨[], rfl, rfl⟩
  unfold compile
  dsimp only
  generalize (⟨expression, expression.toList, 0⟩ : Scanner) = scanner at start
  rw [start.peek?, pure_bind]
  rcases parse_cases expression with
    ⟨empty, read⟩ | ⟨rest, root, read⟩ | ⟨c, rest, shape, noRoot, read⟩
  · refine ⟨.error ⟨.emptyExpression, expression.toList⟩, ?_, read⟩
    rw [empty] at start ⊢
    exact .refused _ start (.any rfl)
  · refine ⟨(readSelectors rest).map fun selectors => ⟨expression, selectors⟩, ?_, ?_⟩
    · rw [root] at start ⊢
      rw [List.head?_cons]
      dsimp only
      rw [if_pos rfl, start.bump, pure_bind]
      exact start.next.allSelectors.map fun _ _ same => .read (congrArg _ same)
    · rw [read]
      cases readSelectors rest <;> rfl
  · refine ⟨.error ⟨.missingRoot, expression.toList⟩, ?_, read⟩
    rw [shape] at start ⊢
    rw [List.head?_cons]
    dsimp only
    rw [if_neg noRoot]
    exact .refused _ start (.any rfl)

variable {expression}

theorem Scanner.At.locate {position : Nat} {rest : List Char}
    (there : Scanner.At ⟨expression, expression.toList, 0⟩ position rest) (fault : Fault) :
    Failure.locate ⟨fault, rest⟩ expression = ⟨expression, position, fault⟩ := by
  obtain ⟨front, split, rfl⟩ := there
  dsimp only at split
  rw [Failure.locate, split, byteLength_append, Nat.add_sub_cancel]

/-- Every scan ends in what the reader gives, without a bad cut or a loop that goes on. An error is
one of the expression that was read, at the end of some of its characters, and what its message
names comes next. -/
theorem syntax_errors_located (expression : String) :
    compile expression = (parse expression).mapError .refused
      ∧ ∀ error, parse expression = .error error →
        error.expression = expression
          ∧ error.position ≤ byteLength expression.toList
          ∧ ∃ front rest, expression.toList = front ++ rest
            ∧ byteLength front = error.position
            ∧ Names error.fault.message rest := by
  obtain ⟨read, agrees, parsed⟩ := compile_agrees expression
  rw [parsed]
  generalize compile expression = scan at agrees
  cases agrees with
  | read same =>
    rw [same]
    exact ⟨rfl, fun _ failed => nomatch failed⟩
  | refused fault there front =>
    rw [Except.mapError, there.locate fault]
    constructor
    · rw [Scanner.refuse, Nat.zero_add]
      rfl
    · intro error same
      obtain rfl := Except.error.inj same
      obtain ⟨passed, split, place⟩ := there
      dsimp only at split
      refine ⟨rfl, ?_, passed, _, split, place, front.names⟩
      rw [split, byteLength_append, place]
      exact Nat.le_add_right _ _

/-- Two bytes of the name count, and so does all that stands in front of the body. -/
theorem syntax_errors_located_in_body :
    let error : SyntaxError := ⟨"$.é[?(@.a == nope)]", 14, .badLiteral "nope"⟩
    compile error.expression = .error (.refused error)
      ∧ ∃ front rest, error.expression.toList = front ++ rest ∧ byteLength front = 14
        ∧ "nope".toList <+: rest := by
  intro error
  have read : parse error.expression = .error error := by decide +kernel
  obtain ⟨scanned, located⟩ := syntax_errors_located error.expression
  obtain ⟨-, -, front, rest, split, place, names⟩ := located error read
  rw [read] at scanned
  exact ⟨scanned, front, rest, split, place, names.word "nope" rfl⟩

end JsonTree.Path
