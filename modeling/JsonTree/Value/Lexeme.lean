import JsonTree.Text.StringLiteral
import JsonTree.Text.Whitespace
import JsonTree.Number.Basic

/-! The tokens of a JSON text.

Blanks may stand between any two tokens and mean nothing, so they are gone after
this step.
-/

set_option autoImplicit false

namespace JsonTree

inductive Lexeme where
  | beginArray | endArray | beginObject | endObject
  | colon | comma
  | null
  | bool (flag : Bool)
  | string (content : String)
  | number (value : Number)
  deriving DecidableEq, Repr

namespace Lexeme

def next? : List Char → Option (Lexeme × List Char)
  | '[' :: rest => some (.beginArray, rest)
  | ']' :: rest => some (.endArray, rest)
  | '\x7b' :: rest => some (.beginObject, rest)
  | '\x7d' :: rest => some (.endObject, rest)
  | ':' :: rest => some (.colon, rest)
  | ',' :: rest => some (.comma, rest)
  | 'n' :: 'u' :: 'l' :: 'l' :: rest => some (.null, rest)
  | 't' :: 'r' :: 'u' :: 'e' :: rest => some (.bool true, rest)
  | 'f' :: 'a' :: 'l' :: 's' :: 'e' :: rest => some (.bool false, rest)
  | '"' :: rest => (StringLiteral.scan rest).map fun (content, rest) =>
    (.string (String.ofList content), rest)
  | text => (Number.scan text).map fun (value, rest) => (.number value, rest)

theorem next?_length {text rest : List Char} {lexeme : Lexeme}
    (read : next? text = some (lexeme, rest)) : rest.length < text.length := by
  unfold next? at read
  split at read
  case h_10 tail =>
    simp only [Option.map_eq_some_iff] at read
    obtain ⟨⟨content, left⟩, scanned, result⟩ := read
    obtain ⟨-, rfl⟩ := Prod.mk.inj result
    have := StringLiteral.scan_length scanned
    simp
    omega
  case h_11 =>
    simp only [Option.map_eq_some_iff] at read
    obtain ⟨⟨value, left⟩, scanned, result⟩ := read
    obtain ⟨-, rfl⟩ := Prod.mk.inj result
    exact Number.scan_length scanned
  all_goals
    obtain ⟨-, rfl⟩ := Prod.mk.inj (Option.some.inj read)
    simp
    try omega

def scanAll : List Char → Option (List Lexeme)
  | [] => some []
  | c :: rest =>
    if isBlank c then scanAll rest
    else
      match _read : next? (c :: rest) with
      | none => none
      | some (lexeme, rest) => (scanAll rest).map (lexeme :: ·)
termination_by text => text.length
decreasing_by
  · simp
  · exact next?_length _read

end Lexeme

end JsonTree
