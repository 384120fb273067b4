import JsonTree.Value.Basic
import JsonTree.Text.StringLiteral
import JsonTree.Text.Whitespace

/-! JSON texts of values.

A layout says which blanks are written between the tokens; the tokens themselves do
not depend on it.
-/

set_option autoImplicit false

namespace JsonTree

/-- The blanks of a layout: before an item that is nested `depth` deep, and after the
colon of a member. -/
structure Layout where
  lineBreak : Nat → List Char
  afterColon : List Char
  lineBreak_blank : ∀ depth, ∀ c ∈ lineBreak depth, isBlank c
  afterColon_blank : ∀ c ∈ afterColon, isBlank c

def Layout.compact : Layout := ⟨fun _ => [], [], by simp, by simp⟩

def Layout.pretty : Layout where
  lineBreak depth := '\n' :: List.replicate (2 * depth) ' '
  afterColon := [' ']
  lineBreak_blank depth c member := by
    simp only [List.mem_cons, List.mem_replicate] at member
    rcases member with rfl | ⟨-, rfl⟩ <;> decide
  afterColon_blank c member := by
    obtain rfl := List.mem_singleton.mp member
    decide

def boolChars (flag : Bool) : List Char :=
  if flag then ['t', 'r', 'u', 'e'] else ['f', 'a', 'l', 's', 'e']

def nullChars : List Char := ['n', 'u', 'l', 'l']

namespace Value

mutual

def write (layout : Layout) (depth : Nat) : Value → List Char
  | .null => nullChars
  | .bool flag => boolChars flag
  | .number value => value.chars
  | .string content => StringLiteral.encode content.toList
  | .array [] => ['[', ']']
  | .array (item :: rest) =>
    '[' :: layout.lineBreak (depth + 1) ++ write layout (depth + 1) item
      ++ writeItems layout (depth + 1) rest ++ layout.lineBreak depth ++ [']']
  | .object [] => ['\x7b', '\x7d']
  | .object ((key, value) :: rest) =>
    '\x7b' :: layout.lineBreak (depth + 1) ++ StringLiteral.encode key.toList
      ++ ':' :: layout.afterColon ++ write layout (depth + 1) value
      ++ writeMembers layout (depth + 1) rest ++ layout.lineBreak depth ++ ['\x7d']

def writeItems (layout : Layout) (depth : Nat) : List Value → List Char
  | [] => []
  | item :: rest =>
    ',' :: layout.lineBreak depth ++ write layout depth item ++ writeItems layout depth rest

def writeMembers (layout : Layout) (depth : Nat) : List (String × Value) → List Char
  | [] => []
  | (key, value) :: rest =>
    ',' :: layout.lineBreak depth ++ StringLiteral.encode key.toList
      ++ ':' :: layout.afterColon ++ write layout depth value ++ writeMembers layout depth rest

end

def chars (layout : Layout) (value : Value) : List Char := value.write layout 0

def compact (value : Value) : String := String.ofList (value.chars .compact)

def pretty (value : Value) : String := String.ofList (value.chars .pretty)

end Value

end JsonTree
