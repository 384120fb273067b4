import JsonTree.CommandLine.Pattern.Basic
import JsonTree.Text.Segments

/-! Tests on the fields of a line: for a name, and for a value that is a number or
matches a pattern. -/

set_option autoImplicit false

namespace JsonTree.CommandLine

structure FieldTest where
  name : String
  value : Option String
  deriving DecidableEq, Repr

namespace FieldTest

def isDecimal (text : List Char) : Bool :=
  let (whole, rest) := Digit.scan text
  let (fraction, rest) :=
    match rest with
    | '.' :: more => Digit.scan more
    | _ => ([], rest)
  !(whole.isEmpty && fraction.isEmpty) &&
    match rest with
    | [] => true
    | mark :: '+' :: exponent | mark :: '-' :: exponent | mark :: exponent =>
      (mark == 'e' || mark == 'E') && (Digit.all? exponent).isSome

def isNumberName (text : List Char) : Bool :=
  ["inf", "infinity", "nan"].contains (String.ofList (text.map Char.toLower))

-- A number without a plus sign in front is a pattern as well, so only the others have to
-- be told apart.

def checkValue (value : List Char) : Except Pattern.Fault Unit :=
  match value with
  | '+' :: rest =>
    if isDecimal rest || isNumberName rest then .ok () else Pattern.check value
  | _ => Pattern.check value

/-- The text is cut at every `=`, and what follows the value does not count. -/
def parse (text : List Char) : Except Pattern.Fault FieldTest :=
  match segments '=' text with
  | name :: value :: _ => do
    checkValue value
    return ⟨String.ofList name, some (String.ofList value)⟩
  | _ => .ok ⟨String.ofList text, none⟩

end FieldTest

end JsonTree.CommandLine
