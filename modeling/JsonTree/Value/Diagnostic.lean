import JsonTree.Value.Basic
import JsonTree.Text.Diagnostic

/-! The diagnostic text of a value: scalars name their kind, containers do not. -/

set_option autoImplicit false

namespace JsonTree

def boolText (flag : Bool) : String := if flag then "true" else "false"

def Number.diagnostic (number : Number) : String := "Number(" ++ number.text ++ ")"

namespace Value

mutual

def diagnostic : Value → String
  | .null => "Null"
  | .bool flag => "Bool(" ++ boolText flag ++ ")"
  | .number value => value.diagnostic
  | .string content => "String(" ++ Diagnostic.quote content ++ ")"
  | .array items => "[" ++ ", ".intercalate (itemDiagnostics items) ++ "]"
  | .object members => "\x7b" ++ ", ".intercalate (memberDiagnostics members) ++ "\x7d"

def itemDiagnostics : List Value → List String
  | [] => []
  | item :: rest => item.diagnostic :: itemDiagnostics rest

def memberDiagnostics : List (String × Value) → List String
  | [] => []
  | (key, value) :: rest =>
    (Diagnostic.quote key ++ ": " ++ value.diagnostic) :: memberDiagnostics rest

end

end Value

end JsonTree
