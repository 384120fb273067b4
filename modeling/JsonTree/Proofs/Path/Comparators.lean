import JsonTree.Path.Condition
import JsonTree.Proofs.Number.Equality

/-! How the six comparisons of a filter hang together.

All of them read one relation, that of the field to the literal. What they read there is an
order, except between booleans, between nulls, and between numbers that the order does not tell
apart and that are not equal; there it is whether the two are the same. Numbers of which no
exponent is cut off are equal wherever their order says so, and are always ordered.
-/

set_option autoImplicit false

namespace JsonTree

variable {item value : Value} {field : List String} {literal : Literal} {relation : Relation}

def Literal.kind : Literal → Kind
  | .string _ => .string
  | .number _ => .number
  | .bool _ => .boolean
  | .null => .null

namespace Filter

/-- How many hold of the three comparisons that exclude one another. -/
def sides (meets : Comparator → Bool) : Nat :=
  [Comparator.less, .equal, .greater].countP meets

/-- Answers as an order gives them: `>=` and `<=` allow for equality, and no two sides hold. -/
structure Ordered (meets : Comparator → Bool) : Prop where
  atLeast : meets .atLeast = (meets .greater || meets .equal)
  atMost : meets .atMost = (meets .less || meets .equal)
  exclusive : sides meets ≤ 1

structure Unordered (meets : Comparator → Bool) : Prop where
  atLeast : meets .atLeast = false
  atMost : meets .atMost = false
  greater : meets .greater = false
  less : meets .less = false

/-- Answers about two numbers: whether they are equal, and in what order they are if not. -/
structure Numeric (left right : Number) (meets : Comparator → Bool) : Prop where
  equal : meets .equal = left.equals right
  less : meets .less = (!left.equals right && left.order right == .lt)
  greater : meets .greater = (!left.equals right && left.order right == .gt)

/-- The answers of filters that differ in nothing but the comparison, and in their texts. -/
def answers (raw : Comparator → String) (field : List String) (literal : Literal) (item : Value)
    (comparator : Comparator) : Bool :=
  accepts ⟨raw comparator, field, comparator, literal⟩ item

theorem notEqual_holds (relation : Relation) :
    Comparator.notEqual.holds relation = !Comparator.equal.holds relation := by
  cases relation <;> rfl

theorem sides_ordered (order : Ordering) : sides (·.holds (.ordered order)) = 1 := by
  cases order <;> rfl

theorem ordered_of_ne (decided : relation ≠ .equality true) : Ordered (·.holds relation) := by
  cases relation with
  | ordered order =>
    exact ⟨by cases order <;> rfl, by cases order <;> rfl, (sides_ordered order).le⟩
  | equality same =>
    cases same with
    | true => contradiction
    | false => exact ⟨rfl, rfl, Nat.zero_le 1⟩

theorem unordered_equality (same : Bool) : Unordered (·.holds (.equality same)) :=
  ⟨rfl, rfl, rfl, rfl⟩

end Filter

namespace Number

variable {left right : Number}

theorem relation_ne (left right : Number) : left.relation right ≠ .equality true := by
  unfold relation
  split
  · exact nofun
  · split <;> exact nofun

theorem numeric_relation (left right : Number) :
    Filter.Numeric left right (·.holds (left.relation right)) := by
  unfold relation
  cases same : left.equals right with
  | true => exact ⟨same.symm, by simp [same, Comparator.holds], by simp [same, Comparator.holds]⟩
  | false =>
    cases tied : left.order right <;> constructor <;> simp [same, tied, Comparator.holds]

/-- The order tells apart whatever is not equal, as long as no exponent is cut off. -/
theorem Moderate.relation_ordered (leftModerate : left.Moderate)
    (rightModerate : right.Moderate) : ∃ order, left.relation right = .ordered order := by
  unfold relation
  split
  · exact ⟨_, rfl⟩
  · next different =>
    split
    · next tied =>
      have same := (leftModerate.order_eq_iff rightModerate).mp tied
      exact absurd (leftModerate.equals_of_toRat_eq rightModerate same) different
    · exact ⟨_, rfl⟩

end Number

namespace Literal

/-- What the fields of the kind of a literal are to it. -/
inductive Stands : Literal → Value → Relation → Prop where
  | number (left right : Number) : Stands (.number right) (.number left) (left.relation right)
  | string (left right : String) :
      Stands (.string right) (.string left) (.ordered (compareText left right))
  | bool (left right : Bool) : Stands (.bool right) (.bool left) (.equality (left == right))
  | null : Stands .null .null (.equality true)

theorem Stands.relation? (stands : Stands literal value relation) :
    literal.relation? value = some relation := by
  cases stands <;> rfl

theorem exists_stands (same : value.kind = literal.kind) :
    ∃ relation, Stands literal value relation := by
  cases literal with
  | string right =>
    cases value with
    | string left => exact ⟨_, .string left right⟩
    | _ => contradiction
  | number right =>
    cases value with
    | number left => exact ⟨_, .number left right⟩
    | _ => contradiction
  | bool right =>
    cases value with
    | bool left => exact ⟨_, .bool left right⟩
    | _ => contradiction
  | null =>
    cases value with
    | null => exact ⟨_, .null⟩
    | _ => contradiction

theorem relation?_eq_none (other : value.kind ≠ literal.kind) :
    literal.relation? value = none := by
  cases literal <;> cases value <;> first | contradiction | rfl

theorem Stands.decided (stands : Stands literal value relation)
    (kind : literal.kind = .number ∨ literal.kind = .string) : relation ≠ .equality true := by
  cases stands with
  | number left right => exact Number.relation_ne left right
  | string => exact nofun
  | bool | null => rcases kind with kind | kind <;> contradiction

theorem Stands.ordered (stands : Stands literal value relation) (text : literal.kind = .string) :
    ∃ order, relation = .ordered order := by
  cases stands with
  | string => exact ⟨_, rfl⟩
  | number | bool | null => contradiction

theorem Stands.equality (stands : Stands literal value relation)
    (kind : literal.kind = .boolean ∨ literal.kind = .null) :
    ∃ same, relation = .equality same := by
  cases stands with
  | bool | null => exact ⟨_, rfl⟩
  | number | string => rcases kind with kind | kind <;> contradiction

end Literal

namespace Filter

/-- All six comparisons read the relation that the field has to the literal. -/
theorem answers_of_stands (raw : Comparator → String) (found : item.field? field = some value)
    (stands : literal.Stands value relation) :
    answers raw field literal item = (·.holds relation) := by
  funext comparator
  rw [answers, accepts, found]
  dsimp only
  rw [stands.relation?]
  rfl

/-- Without a field of the kind of the literal no comparison holds, not even `!=`. -/
theorem answers_eq_false (raw : Comparator → String)
    (other : ∀ value, item.field? field = some value → value.kind ≠ literal.kind)
    (comparator : Comparator) : answers raw field literal item comparator = false := by
  rw [answers, accepts]
  cases found : item.field? field with
  | none => rfl
  | some value =>
    dsimp only
    rw [Literal.relation?_eq_none (other value found)]
    rfl

/-- The six comparisons of the field of an item with a literal: which of them hold together. -/
theorem comparators_coherent (raw : Comparator → String) (field : List String)
    (literal : Literal) (item : Value) :
    let meets := answers raw field literal item
    ((∀ value, item.field? field = some value → value.kind ≠ literal.kind) →
        ∀ comparator, meets comparator = false)
      ∧ ∀ value, item.field? field = some value → value.kind = literal.kind →
        (meets .notEqual = !meets .equal)
          ∧ (literal.kind = .number ∨ literal.kind = .string → Ordered meets)
          ∧ (literal.kind = .string → sides meets = 1)
          ∧ (∀ left right, value = .number left → literal = .number right →
            Numeric left right meets)
          ∧ (∀ left right, value = .number left → literal = .number right →
            left.Moderate → right.Moderate → sides meets = 1)
          ∧ (literal.kind = .boolean ∨ literal.kind = .null → Unordered meets) := by
  refine ⟨answers_eq_false raw, fun value found kind => ?_⟩
  obtain ⟨relation, stands⟩ := Literal.exists_stands kind
  rw [answers_of_stands raw found stands]
  refine ⟨notEqual_holds relation, fun kind => ?_, fun text => ?_, ?_, ?_, fun kind => ?_⟩
  · exact ordered_of_ne (stands.decided kind)
  · obtain ⟨order, rfl⟩ := stands.ordered text
    exact sides_ordered order
  · rintro left right rfl rfl
    cases stands
    exact left.numeric_relation right
  -- With no exponent cut off the order tells apart what equality does, so one side holds.
  · rintro left right rfl rfl leftModerate rightModerate
    obtain ⟨order, ordered⟩ := leftModerate.relation_ordered rightModerate
    cases stands
    rw [ordered]
    exact sides_ordered order
  · obtain ⟨same, rfl⟩ := stands.equality kind
    exact unordered_equality same

/-- A field that is greater than the literal, but only behind the digits that are compared. -/
theorem comparators_coherent_rounded :
    let left : Number := ⟨false, 0,
      [1, 0, 0, 0, 0, 0, 0, 0, 0, 0, 0, 0, 0, 0, 0, 0, 0, 0, 0, 0, 0, 0, 0, 0, 0, 0, 0, 0, 0, 0, 1],
      none⟩
    let right : Number := ⟨false, 0, [1], none⟩
    let item := Value.object [("a", .object [("b", .number left)])]
    let meets := answers (fun _ => "@.a.b") ["a", "b"] (.number right) item
    left.order right = .gt ∧ meets .equal = true ∧ meets .notEqual = false
      ∧ meets .greater = false
      ∧ meets .atLeast = true ∧ sides meets = 1
      ∧ answers (fun _ => "@.a.b") ["a", "b"] .null item .notEqual = false := by
  intro left right item meets
  have found : item.field? ["a", "b"] = some (.number left) := rfl
  have leftModerate : left.Moderate := by decide +kernel
  have rightModerate : right.Moderate := by decide +kernel
  have equal : meets .equal = true := by decide +kernel
  obtain ⟨-, same⟩ := comparators_coherent (fun _ => "@.a.b") ["a", "b"] (.number right) item
  obtain ⟨notEqual, ordered, -, numeric, exact, -⟩ := same (.number left) found rfl
  have other : ∀ value, item.field? ["a", "b"] = some value → value.kind ≠ Literal.null.kind := by
    intro value read
    obtain rfl := Option.some.inj (found.symm.trans read)
    exact nofun
  have greater : meets .greater = (!left.equals right && left.order right == .gt) :=
    (numeric left right rfl rfl).greater
  have equals : left.equals right = true := (numeric left right rfl rfl).equal.symm.trans equal
  have atLeast : meets .atLeast = (meets .greater || meets .equal) := (ordered (.inl rfl)).atLeast
  exact ⟨by decide +kernel, equal, notEqual.trans (congrArg not equal),
    by rw [greater, equals, Bool.not_true, Bool.false_and],
    by rw [atLeast, equal, Bool.or_true],
    exact left right rfl rfl leftModerate rightModerate,
    (comparators_coherent (fun _ => "@.a.b") ["a", "b"] .null item).1 other .notEqual⟩

end Filter

end JsonTree
