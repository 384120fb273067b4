import JsonTree.Proofs.Number.NormalForm
import JsonTree.Proofs.Path.Addresses

/-! Indices of any length.

An index in brackets stops at an end of the 64-bit range. An array that its length keeps below
the upper end has no item at either end or beyond it, so what is selected is decided by the
integer that is written. From the end, an index is taken from the length by its size, and only
if the length is no less, so no difference is below zero.
-/

set_option autoImplicit false

namespace JsonTree

def checkedSub (left right : Nat) : Option Nat :=
  if right ≤ left then some (left - right) else none

namespace Value

def resolve? (length : Nat) (position : Int) : Option Nat :=
  if position < 0 then checkedSub length position.natAbs else some position.natAbs

theorem resolve?_eq_some_iff {length place : Nat} {position : Int} :
    resolve? length position = some place
      ↔ (place : Int) = if position < 0 then position + length else position := by
  unfold resolve? checkedSub
  split
  · split
    · rw [Option.some.injEq]
      omega
    · simp only [reduceCtorEq, false_iff]
      omega
  · rw [Option.some.injEq]
    omega

theorem resolve?_eq_none_iff {length : Nat} {position : Int} :
    resolve? length position = none ↔ position < -length := by
  unfold resolve? checkedSub
  split
  · split
    · simp only [reduceCtorEq, false_iff]
      omega
    · simp only [true_iff]
      omega
  · simp only [reduceCtorEq, false_iff]
    omega

theorem item?_eq_resolve (value : Value) (position : Int) :
    value.item? position = (resolve? value.items.length position).bind (value.items[·]?) := by
  unfold item?
  generalize counted : (if position < 0 then position + (value.items.length : Int) else position)
    = place
  cases resolved : resolve? value.items.length position with
  | none =>
    have before := resolve?_eq_none_iff.mp resolved
    rw [if_pos (by omega)]
    rfl
  | some found =>
    have same := resolve?_eq_some_iff.mp resolved
    rw [if_neg (by omega)]
    exact congrArg (value.items[·]?) (by omega)

theorem item?_eq_none_iff {value : Value} {position : Int} :
    value.item? position = none
      ↔ position < -value.items.length ∨ value.items.length ≤ position := by
  rw [item?_eq_resolve]
  cases resolved : resolve? value.items.length position with
  | none =>
    have before := resolve?_eq_none_iff.mp resolved
    exact ⟨fun _ => .inl before, fun _ => rfl⟩
  | some found =>
    have same := resolve?_eq_some_iff.mp resolved
    rw [Option.bind_some, List.getElem?_eq_none_iff]
    omega

/-- To stop at the ends of the range takes no index into an array, and none out of it. -/
theorem item?_saturate {value : Value} (bounded : (value.items.length : Int) ≤ greatestInt64)
    (position : Int) : value.item? (saturate position) = value.item? position := by
  by_cases inside : InInt64 position
  · rw [saturate_of_mem inside.1 inside.2]
  · have outside : position < -value.items.length ∨ value.items.length ≤ position := by
      unfold InInt64 leastInt64 greatestInt64 at inside
      unfold greatestInt64 at bounded
      omega
    rw [item?_eq_none_iff.mpr outside, item?_eq_none_iff]
    unfold saturate leastInt64
    unfold greatestInt64 at bounded ⊢
    omega

end Value

namespace Path

def indexed (negative : Bool) (digits : List Digit) : String :=
  String.ofList
    ('$' :: '[' :: ((if negative then ['-'] else []) ++ Digit.chars digits ++ [']']))

def denoted (negative : Bool) (digits : List Digit) : Int :=
  if negative then -(Digit.value digits : Int) else Digit.value digits

theorem parse_indexed (negative : Bool) {digits : List Digit} (nonempty : digits ≠ []) :
    parse (indexed negative digits)
      = .ok ⟨indexed negative digits, [.index (saturate (denoted negative digits))]⟩ := by
  refine parse_eq_ok_iff.mpr ⟨rfl, _, String.toList_ofList, readSelectors_eq_ok_iff.mpr ?_⟩
  have closing : NoDigit [']'] := noDigit_cons (by decide) []
  have index := Index.digits negative nonempty closing
  exact .cons (.bracket blanks_nil (.index index) blanks_nil) .nil

theorem toList_index {document : Value} (bounded : (document.items.length : Int) ≤ greatestInt64)
    (expression : String) (position : Int) :
    ((Path.mk expression [.index (saturate position)]).cursor document).toList
      = (document.item? position).toList := by
  rw [toList_cursor, results, selectAll_single, Selector.select, Value.item?_saturate bounded]
  rfl

/-- An index selects what stands at the integer that it denotes, counted from the front or from
the end, and nothing if nothing stands there. What is no array has no items. -/
theorem index_exact (negative : Bool) {digits : List Digit} (nonempty : digits ≠ [])
    {document : Value} (bounded : (document.items.length : Int) ≤ greatestInt64) :
    let index := denoted negative digits
    ∃ path, parse (indexed negative digits) = .ok path
      ∧ path.selectors = [.index (saturate index)]
      ∧ document.item? (saturate index)
        = (Value.resolve? document.items.length (saturate index)).bind (document.items[·]?)
      ∧ (∀ (place : Nat) (item : Value), document.items[place]? = some item →
        index = place ∨ index = place - document.items.length →
        (path.cursor document).toList = [item])
      ∧ (index < -document.items.length ∨ document.items.length ≤ index →
        (path.cursor document).toList = []) := by
  intro index
  refine ⟨_, parse_indexed negative nonempty, rfl, document.item?_eq_resolve _, ?_, ?_⟩
  · intro place item found standing
    rw [toList_index bounded, Value.item?_eq_of_place found standing]
    rfl
  · intro outside
    rw [toList_index bounded, Value.item?_eq_none_iff.mpr outside]
    rfl

theorem index_exact_ends :
    let document : Value := .array [.null, .bool true, .bool false]
    (∃ path, parse "$[-003]" = .ok path ∧ (path.cursor document).toList = [.null])
      ∧ ∃ path, parse "$[-9223372036854775809]" = .ok path
        ∧ path.selectors = [.index (-9223372036854775808)]
        ∧ (path.cursor document).toList = [] := by
  intro document
  have bounded : (document.items.length : Int) ≤ greatestInt64 := by decide
  obtain ⟨first, firstRead, -, -, found, -⟩ := index_exact true (List.cons_ne_nil 0 [0, 3]) bounded
  obtain ⟨beyond, beyondRead, selectors, -, -, missing⟩ :=
    index_exact true (List.cons_ne_nil 9 [2, 2, 3, 3, 7, 2, 0, 3, 6, 8, 5, 4, 7, 7, 5, 8, 0, 9])
      bounded
  exact ⟨⟨first, firstRead, found 0 .null rfl (.inr (by decide))⟩,
    beyond, beyondRead, selectors, missing (.inl (by decide))⟩

end Path

end JsonTree
