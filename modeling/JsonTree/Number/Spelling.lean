import JsonTree.Number.Basic

/-! The spelling in which the texts of numbers are kept.

A text is respelled before it is kept: an exponent gets a small letter and a sign. What is
no number literal is respelled in the same way, since nobody looks.
-/

set_option autoImplicit false

namespace JsonTree.Number

def isMark (c : Char) : Bool := c == 'e' || c == 'E'

def withSign : List Char → List Char
  | [] => ['+']
  | c :: rest => if c = '+' ∨ c = '-' then c :: rest else '+' :: c :: rest

/-- Write a small letter and a sign at the first letter of an exponent. -/
def respell : List Char → List Char
  | [] => []
  | c :: rest => if isMark c then 'e' :: withSign rest else c :: respell rest

/-- The number that is kept of a text that is taken to be one. -/
def ofTrusted? (text : List Char) : Option Number := read? (respell text)

end JsonTree.Number
