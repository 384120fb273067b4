/-! Recognizing number literals by their bytes.

A place goes through the bytes of a text, from the front and never back. A part of a literal that
may be missing leaves it where it is, and the text is a literal when the place ends up behind its
last byte.
-/

set_option autoImplicit false

namespace JsonTree.Number

def isDigitByte (byte : UInt8) : Bool := '0'.toUInt8 ≤ byte && byte ≤ '9'.toUInt8

variable (bytes : List UInt8)

def standsAt (place : Nat) (chars : List Char) : Bool :=
  match bytes[place]? with
  | some byte => chars.any fun c => byte == c.toUInt8
  | none => false

def skipDigits (place : Nat) : Nat :=
  match _found : bytes[place]? with
  | some byte => if isDigitByte byte then skipDigits (place + 1) else place
  | none => place
termination_by bytes.length - place
decreasing_by
  obtain ⟨inside, -⟩ := List.getElem?_eq_some_iff.mp _found
  omega

def skipSomeDigits? (place : Nat) : Option Nat :=
  let last := skipDigits bytes place
  if last = place then none else some last

def skipSign (place : Nat) : Nat := if standsAt bytes place ['-'] then place + 1 else place

/-- Behind a zero no digit is taken. -/
def skipWhole? (place : Nat) : Option Nat :=
  if standsAt bytes place ['0'] then some (place + 1) else skipSomeDigits? bytes place

def skipFraction? (place : Nat) : Option Nat :=
  if standsAt bytes place ['.'] then skipSomeDigits? bytes (place + 1) else some place

def skipExponentSign (place : Nat) : Nat :=
  if standsAt bytes place ['+', '-'] then place + 1 else place

def skipExponent? (place : Nat) : Option Nat :=
  if standsAt bytes place ['e', 'E'] then skipSomeDigits? bytes (skipExponentSign bytes (place + 1))
  else some place

def skipLiteral? : Option Nat := do
  let place ← skipWhole? bytes (skipSign bytes 0)
  let place ← skipFraction? bytes place
  skipExponent? bytes place

def isLiteral : Bool := skipLiteral? bytes == some bytes.length

def recognizes (text : String) : Bool := isLiteral text.toUTF8.data.toList

end JsonTree.Number
