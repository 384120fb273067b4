import JsonTree.Value.Basic
import JsonTree.Value.Lexeme

/-! Reading a JSON text into a value.

The containers that are open while the text is read are kept in a list, innermost
first. Its length is the depth of nesting, which is limited.

One key is reserved: an object whose first key it is stands for a number and must hold
nothing but a string with the literal of that number.
-/

set_option autoImplicit false

namespace JsonTree

/-- A container that has been opened and not yet closed, with what has been read of it,
the latest first. An object waits for the value of `key`; a key may be repeated. -/
inductive OpenContainer where
  | array (items : List Value)
  | object (pairs : List (String × Value)) (key : String)

/-- As the first key of an object it marks a number. -/
def reservedKey : String := "$serde_json::private::Number"

def maxDepth : Nat := 127

-- The open containers stand in for nested calls: each function takes tokens away, and
-- the recursion is on the tokens that are left.
mutual

def readValue (opened : List OpenContainer) : List Lexeme → Option Value
  | .null :: rest => resume .null opened rest
  | .bool flag :: rest => resume (.bool flag) opened rest
  | .string content :: rest => resume (.string content) opened rest
  | .number value :: rest => resume (.number value) opened rest
  | .beginArray :: .endArray :: rest =>
    if opened.length < maxDepth then resume (.array []) opened rest else none
  | .beginArray :: rest =>
    if opened.length < maxDepth then readValue (.array [] :: opened) rest else none
  | .beginObject :: .endObject :: rest =>
    if opened.length < maxDepth then resume (.object []) opened rest else none
  | .beginObject :: .string key :: .colon :: rest =>
    if opened.length < maxDepth then
      if key = reservedKey then readReserved opened rest
      else readValue (.object [] key :: opened) rest
    else none
  | _ => none

/-- The rest of an object whose first key is the reserved one. -/
def readReserved (opened : List OpenContainer) : List Lexeme → Option Value
  | .string content :: .endObject :: rest =>
    match Number.read? content.toList with
    | some value => resume (.number value) opened rest
    | none => none
  | _ => none

/-- Put a value that has been read into the innermost open container. -/
def resume (value : Value) : List OpenContainer → List Lexeme → Option Value
  | [], [] => some value
  | .array items :: outer, .comma :: rest => readValue (.array (value :: items) :: outer) rest
  | .array items :: outer, .endArray :: rest => resume (.array (value :: items).reverse) outer rest
  | .object pairs last :: outer, .comma :: .string key :: .colon :: rest =>
    readValue (.object ((last, value) :: pairs) key :: outer) rest
  | .object pairs last :: outer, .endObject :: rest =>
    resume (Value.ofPairs ((last, value) :: pairs).reverse) outer rest
  | _, _ => none

end

inductive ReadError where
  | malformed
  deriving DecidableEq, Repr

def Value.read? (text : List Char) : Option Value :=
  (Lexeme.scanAll text).bind (readValue [])

def Value.parse (text : String) : Except ReadError Value :=
  match Value.read? text.toList with
  | some value => .ok value
  | none => .error .malformed

end JsonTree
