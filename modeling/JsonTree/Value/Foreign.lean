import JsonTree.Number.Spelling
import JsonTree.Value.Writer

/-! Values on their way to another library and back.

The other library has numbers of its own, which it reads from texts and writes again. A number
of which it cannot read the text cannot be serialized, and becomes null among its values.
-/

set_option autoImplicit false

namespace JsonTree

/-- The numbers of another library, with what it reads them from and what it writes. -/
structure ForeignNumbers where
  Held : Type
  read? : List Char → Option Held
  chars : Held → List Char

variable (foreign : ForeignNumbers)

namespace Number

inductive Handed where
  | int64 (value : Int)
  | uint64 (value : Int)
  | literal (held : foreign.Held)

/-- A number is handed over as an integer where that is written with the same text. -/
def handOver? (number : Number) : Option (Handed foreign) :=
  match number.int64?.filter (intChars · == number.chars) with
  | some value => some (.int64 value)
  | none =>
    match number.uint64?.filter (intChars · == number.chars) with
    | some value => some (.uint64 value)
    | none => (foreign.read? number.chars).map .literal

variable {foreign} in
def Handed.chars : Handed foreign → List Char
  | .int64 value | .uint64 value => intChars value
  | .literal held => foreign.chars held

def serialize? (number : Number) : Option (List Char) :=
  (number.handOver? foreign).map Handed.chars

end Number

namespace Value

mutual

/-- The text of a value that stands `depth` deep, if all of its numbers can be serialized. -/
def serialize? (layout : Layout) (depth : Nat) : Value → Option (List Char)
  | .null => some nullChars
  | .bool flag => some (boolChars flag)
  | .number value => value.serialize? foreign
  | .string content => some (StringLiteral.encode content.toList)
  | .array [] => some ['[', ']']
  | .array (item :: rest) => do
    let first ← serialize? layout (depth + 1) item
    let others ← serializeItems? layout (depth + 1) rest
    some ('[' :: layout.lineBreak (depth + 1) ++ first ++ others ++ layout.lineBreak depth ++ [']'])
  | .object [] => some ['\x7b', '\x7d']
  | .object ((key, value) :: rest) => do
    let first ← serialize? layout (depth + 1) value
    let others ← serializeMembers? layout (depth + 1) rest
    some ('\x7b' :: layout.lineBreak (depth + 1) ++ StringLiteral.encode key.toList
      ++ ':' :: layout.afterColon ++ first ++ others ++ layout.lineBreak depth ++ ['\x7d'])

def serializeItems? (layout : Layout) (depth : Nat) : List Value → Option (List Char)
  | [] => some []
  | item :: rest => do
    let first ← serialize? layout depth item
    let others ← serializeItems? layout depth rest
    some (',' :: layout.lineBreak depth ++ first ++ others)

def serializeMembers? (layout : Layout) (depth : Nat) : List (String × Value) → Option (List Char)
  | [] => some []
  | (key, value) :: rest => do
    let first ← serialize? layout depth value
    let others ← serializeMembers? layout depth rest
    some (',' :: layout.lineBreak depth ++ StringLiteral.encode key.toList
      ++ ':' :: layout.afterColon ++ first ++ others)

end

end Value

inductive ForeignValue where
  | null
  | bool (flag : Bool)
  | number (held : foreign.Held)
  | string (content : String)
  | array (items : List ForeignValue)
  | object (members : List (String × ForeignValue))

namespace ForeignValue

variable {α : Type}

def insert (key : String) (value : α) : List (String × α) → List (String × α)
  | [] => [(key, value)]
  | (name, old) :: rest =>
    if name = key then (name, value) :: rest else (name, old) :: insert key value rest

def collect (pairs : List (String × α)) : List (String × α) :=
  pairs.foldl (fun members pair => insert pair.1 pair.2 members) []

end ForeignValue

namespace Value

mutual

def toForeign : Value → ForeignValue foreign
  | .null => .null
  | .bool flag => .bool flag
  | .number value =>
    match foreign.read? value.chars with
    | some held => .number held
    | none => .null
  | .string content => .string content
  | .array items => .array (itemsToForeign items)
  | .object members => .object (ForeignValue.collect (membersToForeign members))

def itemsToForeign : List Value → List (ForeignValue foreign)
  | [] => []
  | item :: rest => item.toForeign :: itemsToForeign rest

def membersToForeign : List (String × Value) → List (String × ForeignValue foreign)
  | [] => []
  | (key, value) :: rest => (key, value.toForeign) :: membersToForeign rest

end

end Value

namespace ForeignValue

variable {foreign}

mutual

/-- The value that a foreign one is taken for; none when a number of it has no text of one. -/
def toValue? : ForeignValue foreign → Option Value
  | .null => some .null
  | .bool flag => some (.bool flag)
  | .number held => (Number.ofTrusted? (foreign.chars held)).map .number
  | .string content => some (.string content)
  | .array items => (itemsToValue? items).map .array
  | .object members => (membersToValue? members).map Value.ofPairs

def itemsToValue? : List (ForeignValue foreign) → Option (List Value)
  | [] => some []
  | item :: rest => do
    let first ← item.toValue?
    let others ← itemsToValue? rest
    some (first :: others)

def membersToValue? : List (String × ForeignValue foreign) → Option (List (String × Value))
  | [] => some []
  | (key, value) :: rest => do
    let first ← value.toValue?
    let others ← membersToValue? rest
    some ((key, first) :: others)

end

end ForeignValue

end JsonTree
