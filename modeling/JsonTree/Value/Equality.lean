import JsonTree.Value.Basic
import JsonTree.Number.Compare

/-! Equality of values by structure.

Numbers compare by value and objects by key, whatever the order of their members.
Arrays are either sequences or multisets; as multisets, each item on the left takes
the first equal item on the right that is still there.
-/

set_option autoImplicit false

namespace JsonTree

/-- Whether the places of the items of an array count. -/
inductive ArrayOrder where
  | ordered
  | unordered
  deriving DecidableEq, Repr

def takeFirst {α : Type} (accepts : α → Bool) : List α → Option (List α)
  | [] => none
  | head :: rest =>
    if accepts head then some rest else (takeFirst accepts rest).map (head :: ·)

namespace Value

mutual

def equals (order : ArrayOrder) : Value → Value → Bool
  | .null, .null => true
  | .bool left, .bool right => left == right
  | .number left, .number right => left.equals right
  | .string left, .string right => left == right
  | .array left, .array right =>
    left.length == right.length &&
      match order with
      | .ordered => itemsEqual order left right
      | .unordered => itemsMatch order left right
  | .object left, .object right => left.length == right.length && membersEqual order left right
  | _, _ => false

def itemsEqual (order : ArrayOrder) : List Value → List Value → Bool
  | left :: lefts, right :: rights => left.equals order right && itemsEqual order lefts rights
  | _, _ => true

/-- Each item takes the first equal one that no earlier item has taken. -/
def itemsMatch (order : ArrayOrder) : List Value → List Value → Bool
  | [], _ => true
  | left :: lefts, rights =>
    match takeFirst (fun right => left.equals order right) rights with
    | some rights => itemsMatch order lefts rights
    | none => false

def membersEqual (order : ArrayOrder) : List (String × Value) → Members → Bool
  | [], _ => true
  | (key, left) :: lefts, rights =>
    (match rights.get? key with
      | some right => left.equals order right
      | none => false)
    && membersEqual order lefts rights

end

end Value

end JsonTree
