import JsonTree.Value.Equality

/-! Values as they lie in memory.

A container can be shared: it may stand at several places of a value, and in several values.
Equality does not look into a container that stands on both sides.
-/

set_option autoImplicit false

namespace JsonTree

/-- A value whose containers have addresses. -/
inductive Stored where
  | null
  | bool (flag : Bool)
  | number (value : Number)
  | string (content : String)
  | array (address : Nat) (items : List Stored)
  | object (address : Nat) (members : List (String × Stored))
  deriving Inhabited

namespace Stored

mutual

def value : Stored → Value
  | .null => .null
  | .bool flag => .bool flag
  | .number value => .number value
  | .string content => .string content
  | .array _ items => .array (itemValues items)
  | .object _ members => .object (memberValues members)

def itemValues : List Stored → List Value
  | [] => []
  | item :: rest => item.value :: itemValues rest

def memberValues : List (String × Stored) → Members
  | [] => []
  | (key, member) :: rest => (key, member.value) :: memberValues rest

end

mutual

-- Only the first test of two arrays and of two objects is about memory; the rest is the
-- comparison by structure.

def equals (order : ArrayOrder) : Stored → Stored → Bool
  | .null, .null => true
  | .bool left, .bool right => left == right
  | .number left, .number right => left.equals right
  | .string left, .string right => left == right
  | .array here lefts, .array there rights =>
    here == there || (lefts.length == rights.length &&
      match order with
      | .ordered => itemsEqual order lefts rights
      | .unordered => itemsMatch order lefts rights)
  | .object here lefts, .object there rights =>
    here == there || (lefts.length == rights.length && membersEqual order lefts rights)
  | _, _ => false

def itemsEqual (order : ArrayOrder) : List Stored → List Stored → Bool
  | left :: lefts, right :: rights => left.equals order right && itemsEqual order lefts rights
  | _, _ => true

def itemsMatch (order : ArrayOrder) : List Stored → List Stored → Bool
  | [], _ => true
  | left :: lefts, rights =>
    match takeFirst (fun right => left.equals order right) rights with
    | some rights => itemsMatch order lefts rights
    | none => false

def membersEqual (order : ArrayOrder) :
    List (String × Stored) → List (String × Stored) → Bool
  | [], _ => true
  | (key, left) :: lefts, rights =>
    (match rights.lookup key with
      | some right => left.equals order right
      | none => false)
    && membersEqual order lefts rights

end

end Stored

end JsonTree
