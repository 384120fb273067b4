import JsonTree.Pointer.Basic
import JsonTree.Value.Basic

/-! Looking up the value that a pointer names, and writing one in its place.

`Value.get` only reads and `Value.set` only replaces what is there already, so the two
obey the laws of a field: what was written is read back, and nothing beside it changes.
-/

set_option autoImplicit false

namespace JsonTree

inductive LookupError where
  | pathNotFound
  | indexOutOfRange
  | typeMismatch (kind : Kind)
  deriving DecidableEq, Repr

def LookupError.message : LookupError → String
  | .pathNotFound => "path not found"
  | .indexOutOfRange => "array index out of range"
  | .typeMismatch kind => "cannot descend into a " ++ kind.name

/-- A place in an array: an index, or the place after the last item. -/
inductive ArrayPlace where
  | index (index : Nat)
  | append
  deriving DecidableEq, Repr

/-- The place that digits name. A leading zero is allowed to zero alone, and an index
has to fit 64 bits. -/
def ArrayPlace.ofDigits (digits : List Digit) : Except LookupError ArrayPlace :=
  if 1 < digits.length ∧ digits.head?.map Fin.val = some 0 then .error .pathNotFound
  else if Digit.value digits ≤ greatestUInt64 then .ok (.index (Digit.value digits))
  else .error .indexOutOfRange

/-- The place that a reference token names in an array. A `-` alone is the place after
the last item; a negative index names none. -/
def ArrayPlace.ofToken (token : String) : Except LookupError ArrayPlace :=
  match token.toList with
  | ['-'] => .ok .append
  | '-' :: rest => .error (if (Digit.all? rest).isSome then .indexOutOfRange else .pathNotFound)
  | text =>
    match Digit.all? text with
    | some digits => ofDigits digits
    | none => .error .pathNotFound

def existingIndex (token : String) (length : Nat) : Except LookupError Nat :=
  match ArrayPlace.ofToken token with
  | .ok (.index index) => if index < length then .ok index else .error .indexOutOfRange
  | .ok .append => .error .indexOutOfRange
  | .error error => .error error

theorem existingIndex_lt {token : String} {length index : Nat}
    (found : existingIndex token length = .ok index) : index < length := by
  unfold existingIndex at found
  split at found
  · split at found
    · next inside => exact Except.ok.inj found ▸ inside
    · contradiction
  · contradiction
  · contradiction

namespace Value

def child (value : Value) (token : String) : Except LookupError Value :=
  match value with
  | .object members =>
    match Members.get? token members with
    | some value => .ok value
    | none => .error .pathNotFound
  | .array items =>
    match existingIndex token items.length with
    | .ok index =>
      match items[index]? with
      | some item => .ok item
      | none => .error .indexOutOfRange
    | .error error => .error error
  | value => .error (.typeMismatch value.kind)

/-- Replace the value that one reference token leads to; without one nothing changes. -/
def setChild (value : Value) (token : String) (new : Value) : Value :=
  match value with
  | .object members =>
    if (Members.get? token members).isSome then .object (Members.put token new members)
    else .object members
  | .array items =>
    match existingIndex token items.length with
    | .ok index => .array (items.set index new)
    | .error _ => .array items
  | value => value

def get : Value → List String → Except LookupError Value
  | value, [] => .ok value
  | value, token :: rest => do
    let inner ← value.child token
    inner.get rest

/-- Replace the value that reference tokens lead to; without one nothing changes. -/
def set : Value → List String → Value → Value
  | _, [], new => new
  | value, token :: rest, new =>
    match value.child token with
    | .ok inner => value.setChild token (inner.set rest new)
    | .error _ => value

theorem get_append (value : Value) (first second : List String) :
    value.get (first ++ second) = value.get first >>= fun inner => inner.get second := by
  induction first generalizing value with
  | nil => rfl
  | cons token rest ih =>
    simp only [List.cons_append, get]
    cases value.child token with
    | ok inner => exact ih inner
    | error error => rfl

theorem child_setChild {token : String} {value old : Value} (found : value.child token = .ok old)
    (new : Value) : (value.setChild token new).child token = .ok new := by
  cases value with
  | object members =>
    simp only [child] at found
    split at found
    · next hit => simp [setChild, hit, child, Members.get?_put_self]
    · contradiction
  | array items =>
    simp only [child] at found
    split at found
    · next index place =>
      have inside := existingIndex_lt place
      simp [setChild, place, child, inside]
    · contradiction
  | _ => contradiction

/-- What is written where tokens lead is read back there. -/
theorem get_set {value old : Value} {tokens : List String} (found : value.get tokens = .ok old)
    (new : Value) : (value.set tokens new).get tokens = .ok new := by
  induction tokens generalizing value with
  | nil => rfl
  | cons token rest ih =>
    simp only [get] at found
    cases step : value.child token with
    | error error => simp [step, bind, Except.bind] at found
    | ok inner =>
      rw [step] at found
      simp only [set, get, step]
      rw [child_setChild step]
      exact ih found

end Value

def Pointer.get (pointer : Pointer) (value : Value) : Except LookupError Value :=
  value.get pointer.tokens

end JsonTree
