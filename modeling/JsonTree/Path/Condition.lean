import JsonTree.Path.Selector
import JsonTree.Value.Basic

/-! When an item satisfies a filter.

A field that is missing, or whose kind is not that of the literal, satisfies no
comparison, not even `!=`.
-/

set_option autoImplicit false

namespace JsonTree

/-- How a field stands to a literal of its kind. Booleans and null have no order. -/
inductive Relation where
  | ordered (order : Ordering)
  | equality (same : Bool)
  deriving DecidableEq, Repr

def compareText (left right : String) : Ordering :=
  compare (left.toList.map Char.toNat) (right.toList.map Char.toNat)

/-- Numbers that are equal by value are so here; others have their exact order. Where
that order says equal, the two differ all the same and none of them is greater. -/
def Number.relation (left right : Number) : Relation :=
  if left.equals right then .ordered .eq
  else
    match left.order right with
    | .eq => .equality false
    | order => .ordered order

def Literal.relation? (literal : Literal) (value : Value) : Option Relation :=
  match value, literal with
  | .number left, .number right => some (left.relation right)
  | .string left, .string right => some (.ordered (compareText left right))
  | .bool left, .bool right => some (.equality (left == right))
  | .null, .null => some (.equality true)
  | _, _ => none

def Comparator.holds (comparator : Comparator) : Relation → Bool
  | .ordered order =>
    match comparator with
    | .equal => order == .eq
    | .notEqual => order != .eq
    | .atLeast => order != .lt
    | .atMost => order != .gt
    | .greater => order == .gt
    | .less => order == .lt
  | .equality same =>
    match comparator with
    | .equal => same
    | .notEqual => !same
    | _ => false

def Value.field? : Value → List String → Option Value
  | value, [] => some value
  | value, name :: rest =>
    match value.member? name with
    | some inner => inner.field? rest
    | none => none

def Filter.accepts (filter : Filter) (item : Value) : Bool :=
  match item.field? filter.field with
  | some value => (filter.literal.relation? value).any filter.comparator.holds
  | none => false

end JsonTree
