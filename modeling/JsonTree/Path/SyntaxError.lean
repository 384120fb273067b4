import JsonTree.Text.Bytes
import JsonTree.Digit

/-! Faults of path expressions and where they stand. -/

set_option autoImplicit false

namespace JsonTree.Path

inductive Fault where
  | emptyExpression
  | missingRoot
  | unexpected (c : Char)
  | unexpectedInName (c : Char)
  | blankInName
  | missingName
  | unclosedBracket
  | badBracket
  | missingBracket (found : Char)
  | badIndex
  | unterminatedString
  | missingParenthesis
  | unclosedParenthesis
  | missingItem
  | missingField
  | missingComparator
  | missingLiteral
  | badLiteral (word : String)
  | textAfterLiteral
  deriving DecidableEq, Repr

def Fault.message : Fault → String
  | .emptyExpression => "expression is empty"
  | .missingRoot => "expression must start with '$'"
  | .unexpected c => "unexpected character '" ++ c.toString ++ "'"
  | .unexpectedInName c => "unexpected '" ++ c.toString ++ "' in member name"
  | .blankInName => "whitespace in member name"
  | .missingName => "expected member name"
  | .unclosedBracket => "unclosed '['"
  | .badBracket => "bracket must hold '*', an integer, a quoted name or a '?(...)' filter"
  | .missingBracket found => "expected ']', found '" ++ found.toString ++ "'"
  | .badIndex => "invalid array index"
  | .unterminatedString => "unterminated string"
  | .missingParenthesis => "expected '(' after '?'"
  | .unclosedParenthesis => "unclosed '('"
  | .missingItem => "filter must start with '@.'"
  | .missingField => "expected field name after '@.'"
  | .missingComparator => "expected comparison operator"
  | .missingLiteral => "expected filter literal"
  | .badLiteral word => "invalid filter literal '" ++ word ++ "'"
  | .textAfterLiteral => "unexpected text after filter literal"

structure Failure where
  fault : Fault
  rest : List Char
  deriving DecidableEq, Repr

structure SyntaxError where
  expression : String
  position : Nat
  fault : Fault
  deriving DecidableEq, Repr

def SyntaxError.message (error : SyntaxError) : String :=
  "invalid path expression '" ++ error.expression ++ "' at position " ++ natText error.position
    ++ ": " ++ error.fault.message

def Failure.locate (failure : Failure) (expression : String) : SyntaxError :=
  ⟨expression, byteLength expression.toList - byteLength failure.rest, failure.fault⟩

end JsonTree.Path
