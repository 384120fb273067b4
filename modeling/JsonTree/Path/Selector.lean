import JsonTree.Number.Compare

/-! The selectors of a path expression. -/

set_option autoImplicit false

namespace JsonTree

inductive Comparator where
  | equal | notEqual | atLeast | atMost | greater | less
  deriving DecidableEq, Repr

inductive Literal where
  | string (content : String)
  | number (value : Number)
  | bool (flag : Bool)
  | null
  deriving DecidableEq, Repr

/-- One comparison of a field of an item with a literal. The text that it was read
from stays with it. -/
structure Filter where
  raw : String
  field : List String
  comparator : Comparator
  literal : Literal
  deriving DecidableEq, Repr

inductive Selector where
  | property (name : String)
  /-- The item at this index; a negative one counts from the end. -/
  | index (position : Int)
  | wildcard
  /-- The value and everything below it; as the last selector, only what is below. -/
  | descent
  | filter (filter : Filter)
  deriving DecidableEq, Repr

structure Path where
  expression : String
  selectors : List Selector
  deriving DecidableEq, Repr

def Literal.same : Literal → Literal → Bool
  | .string left, .string right => left == right
  | .number left, .number right => left.equals right
  | .bool left, .bool right => left == right
  | .null, .null => true
  | _, _ => false

def Filter.same (left right : Filter) : Bool :=
  left.raw == right.raw && left.field == right.field && left.comparator == right.comparator
    && left.literal.same right.literal

def Selector.same : Selector → Selector → Bool
  | .filter left, .filter right => left.same right
  | left, right => left == right

def Selector.sameAll : List Selector → List Selector → Bool
  | [], [] => true
  | left :: lefts, right :: rights => left.same right && sameAll lefts rights
  | _, _ => false

end JsonTree
