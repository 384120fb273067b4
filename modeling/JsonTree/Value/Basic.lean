import JsonTree.Number.Basic

/-! JSON values.

Members of an object keep the order in which their keys first came; `Members.put`
keeps the keys distinct.
-/

set_option autoImplicit false

namespace JsonTree

inductive Value where
  | null
  | bool (flag : Bool)
  | number (value : Number)
  | string (content : String)
  | array (items : List Value)
  | object (members : List (String × Value))
  deriving Inhabited

abbrev Members := List (String × Value)

inductive Kind where
  | null | boolean | number | string | array | object
  deriving DecidableEq, Repr

def Kind.name : Kind → String
  | .null => "null"
  | .boolean => "boolean"
  | .number => "number"
  | .string => "string"
  | .array => "array"
  | .object => "object"

namespace Members

def get? (key : String) : Members → Option Value
  | [] => none
  | (name, value) :: rest => if name = key then some value else get? key rest

/-- Give a key a value. A key that is there keeps its place, a new one comes last. -/
def put (key : String) (value : Value) : Members → Members
  | [] => [(key, value)]
  | (name, old) :: rest =>
    if name = key then (name, value) :: rest else (name, old) :: put key value rest

def erase (key : String) : Members → Members
  | [] => []
  | (name, value) :: rest => if name = key then rest else (name, value) :: erase key rest

def keys (members : Members) : List String := members.map Prod.fst

/-- The members that come from a list of pairs. A repeated key keeps its first place
and takes its last value. -/
def ofPairs (pairs : List (String × Value)) : Members :=
  pairs.foldl (fun members pair => put pair.1 pair.2 members) []

theorem get?_put_self (key : String) (value : Value) (members : Members) :
    get? key (put key value members) = some value := by
  induction members with
  | nil => simp [put, get?]
  | cons member rest ih =>
    obtain ⟨name, old⟩ := member
    by_cases same : name = key <;> simp [put, get?, same, ih]

theorem get?_put_of_ne {key other : String} (differ : key ≠ other) (value : Value)
    (members : Members) : get? other (put key value members) = get? other members := by
  induction members with
  | nil => simp [put, get?, differ]
  | cons member rest ih =>
    obtain ⟨name, old⟩ := member
    by_cases same : name = key
    · subst same
      simp [put, get?, differ]
    · simp only [put, if_neg same, get?, ih]

theorem get?_eq_none_iff {key : String} {members : Members} :
    get? key members = none ↔ key ∉ keys members := by
  induction members with
  | nil => simp [get?, keys]
  | cons member rest ih =>
    obtain ⟨name, value⟩ := member
    by_cases same : name = key
    · simp [get?, keys, same]
    · simp [get?, keys, same] at ih ⊢
      rw [ih]
      exact ⟨fun absent => ⟨fun equal => same equal.symm, absent⟩, fun both => both.2⟩

theorem keys_put (key : String) (value : Value) (members : Members) :
    keys (put key value members)
      = if key ∈ keys members then keys members else keys members ++ [key] := by
  induction members with
  | nil => simp [put, keys]
  | cons member rest ih =>
    obtain ⟨name, old⟩ := member
    by_cases same : name = key
    · simp [put, keys, same]
    · have apart : key ≠ name := fun equal => same equal.symm
      by_cases member : key ∈ keys rest
      · simp [keys] at ih member
        simp [put, keys, same, apart, member, ih]
      · simp [keys] at ih member
        simp [put, keys, same, apart, member, ih]

theorem nodup_put {key : String} {value : Value} {members : Members}
    (distinct : (keys members).Nodup) : (keys (put key value members)).Nodup := by
  rw [keys_put]
  split
  · exact distinct
  · next absent =>
    rw [List.nodup_append]
    refine ⟨distinct, by simp, ?_⟩
    intro name member other last equal
    simp at last
    exact absent (last ▸ equal ▸ member)

theorem nodup_ofPairs (pairs : List (String × Value)) : (keys (ofPairs pairs)).Nodup := by
  suffices general : ∀ members : Members, (keys members).Nodup →
      (keys (pairs.foldl (fun members pair => put pair.1 pair.2 members) members)).Nodup by
    exact general [] (by simp [keys])
  induction pairs with
  | nil => exact fun _ distinct => distinct
  | cons pair pairs ih => exact fun members distinct => ih _ (nodup_put distinct)

end Members

namespace Value

def ofPairs (pairs : List (String × Value)) : Value := .object (Members.ofPairs pairs)

def kind : Value → Kind
  | .null => .null
  | .bool _ => .boolean
  | .number _ => .number
  | .string _ => .string
  | .array _ => .array
  | .object _ => .object

def isNull : Value → Bool
  | .null => true
  | _ => false

def isContainer : Value → Bool
  | .array _ | .object _ => true
  | _ => false

def bool? : Value → Option Bool
  | .bool flag => some flag
  | _ => none

def number? : Value → Option Number
  | .number value => some value
  | _ => none

def string? : Value → Option String
  | .string content => some content
  | _ => none

def array? : Value → Option (List Value)
  | .array items => some items
  | _ => none

def object? : Value → Option Members
  | .object members => some members
  | _ => none

def member? (key : String) (value : Value) : Option Value := value.object?.bind (Members.get? key)

def items (value : Value) : List Value := value.array?.getD []

def members (value : Value) : Members := value.object?.getD []

def children : Value → List Value
  | .array items => items
  | .object members => members.map Prod.snd
  | _ => []

mutual

def depth : Value → Nat
  | .array items => itemsDepth items + 1
  | .object members => membersDepth members + 1
  | _ => 0

def itemsDepth : List Value → Nat
  | [] => 0
  | item :: rest => max item.depth (itemsDepth rest)

def membersDepth : List (String × Value) → Nat
  | [] => 0
  | (_, value) :: rest => max value.depth (membersDepth rest)

end

end Value

end JsonTree
