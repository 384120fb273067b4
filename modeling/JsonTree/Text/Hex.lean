/-! Hexadecimal digits: written in lowercase, read in either case. -/

set_option autoImplicit false

namespace JsonTree

def hexChar (n : Nat) : Char :=
  if n < 10 then Char.ofNat (48 + n) else Char.ofNat (87 + n)

def hexValue? (c : Char) : Option Nat :=
  let code := c.toNat
  if 48 ≤ code ∧ code < 58 then some (code - 48)
  else if 97 ≤ code ∧ code < 103 then some (code - 87)
  else if 65 ≤ code ∧ code < 71 then some (code - 55)
  else none

theorem hexValue?_hexChar {n : Nat} (small : n < 16) : hexValue? (hexChar n) = some n := by
  revert n
  decide

def hexChars (n : Nat) : List Char :=
  if n < 16 then [hexChar n] else hexChars (n / 16) ++ [hexChar (n % 16)]

end JsonTree
