import JsonTree.CommandLine.Pattern.Flags
import JsonTree.Text.Hex

/-! The smallest parts of a pattern. -/

set_option autoImplicit false

namespace JsonTree.CommandLine.Pattern

/-- A byte is a character spelled with two hexadecimal digits. A property is one that
characters have by name: being a digit, a blank or part of a word. -/
inductive Atom where
  | char (c : Char)
  | byte (c : Char)
  | any
  | edge
  | wordEdge
  | property (negated : Bool)
  deriving DecidableEq, Repr

namespace Atom

def char? : Atom → Option Char
  | .char c | .byte c => some c
  | _ => none

def readHex (flags : Flags) (total : Nat) : Nat → List Char → Option (Nat × List Char)
  | 0, text => some (total, text)
  | count + 1, text =>
    match flags.skip text with
    | [] => none
    | c :: rest => do readHex flags (16 * total + (← hexValue? c)) count rest

def ofCode? (code : Nat) : Option Char :=
  if code.isValidChar then some (Char.ofNat code) else none

def ofEscape? (c : Char) : Option Atom :=
  if c = 'a' then some (.char '\x07')
  else if c = 'f' then some (.char '\x0c')
  else if c = 'n' then some (.char '\n')
  else if c = 'r' then some (.char '\r')
  else if c = 't' then some (.char '\t')
  else if c = 'v' then some (.char '\x0b')
  else if c = 'A' ∨ c = 'z' then some .edge
  else if c = 'b' ∨ c = 'B' ∨ c = '<' ∨ c = '>' then some .wordEdge
  else if c = 'd' ∨ c = 's' ∨ c = 'w' then some (.property false)
  else if c = 'D' ∨ c = 'S' ∨ c = 'W' then some (.property true)
  else if c.toNat < 128 ∧ !c.isAlphanum then some (.char c)
  else none

def readEscape (flags : Flags) : List Char → Option (Atom × List Char)
  | [] => none
  | 'x' :: rest => do
    let (code, rest) ← readHex flags 0 2 rest
    return (.byte (← ofCode? code), rest)
  | 'u' :: rest => do
    let (code, rest) ← readHex flags 0 4 rest
    return (.char (← ofCode? code), rest)
  | 'U' :: rest => do
    let (code, rest) ← readHex flags 0 8 rest
    return (.char (← ofCode? code), rest)
  | c :: rest => do return (← ofEscape? c, rest)

def read (flags : Flags) : List Char → Option (Atom × List Char)
  | [] => none
  | '\\' :: rest => readEscape flags rest
  | c :: rest =>
    some (if c = '.' then .any else if c = '^' ∨ c = '$' then .edge else .char c, rest)

/-- An atom that stands in a class, where only a backslash is special. -/
def readInClass (flags : Flags) : List Char → Option (Atom × List Char)
  | [] => none
  | '\\' :: rest => readEscape flags rest
  | c :: rest => some (.char c, rest)

-- Of the characters nothing is known but their numbers: their cases and properties
-- cannot be asked for. Those of bytes can, as long as only texts match.

def isAllowed (flags : Flags) : Atom → Bool
  | .char _ => !(flags.unicode && flags.ignoreCase)
  | .byte c => if flags.unicode then !flags.ignoreCase else c.toNat < 128
  | .any => flags.unicode
  | .edge | .wordEdge => true
  | .property negated => !flags.unicode && !negated

def isAllowedInClass (flags : Flags) : Atom → Bool
  | .char c | .byte c => if flags.unicode then !flags.ignoreCase else c.toNat < 128
  | .property negated => !flags.unicode && !negated
  | _ => false

end Atom

end JsonTree.CommandLine.Pattern
