import JsonTree.Digit
import JsonTree.Text.Bytes
import JsonTree.Text.Segments

/-! Pointers in the sense of RFC 6901 and their texts.

A pointer is the list of its reference tokens. Its text is determined by them, and
`Pointer.parse` accepts nothing else, so no pointer has two texts.
-/

set_option autoImplicit false

namespace JsonTree

structure Pointer where
  tokens : List String
  deriving DecidableEq, Repr

namespace Pointer

def escapeChar (c : Char) : List Char :=
  if c = '~' then ['~', '0'] else if c = '/' then ['~', '1'] else [c]

def escape (token : List Char) : List Char := token.flatMap escapeChar

def escapeToken (token : String) : String := String.ofList (escape token.toList)

inductive EscapeFault where
  | unknown
  | dangling
  deriving DecidableEq, Repr

def EscapeFault.message : EscapeFault → String
  | .unknown => "'~' must be followed by '0' or '1'"
  | .dangling => "dangling '~' at end of reference token"

structure EscapeError where
  position : Nat
  fault : EscapeFault
  deriving DecidableEq, Repr

def unescape (position : Nat) : List Char → Except EscapeError (List Char)
  | [] => .ok []
  | '~' :: '0' :: rest => (unescape (position + 2) rest).map ('~' :: ·)
  | '~' :: '1' :: rest => (unescape (position + 2) rest).map ('/' :: ·)
  | ['~'] => .error ⟨position, .dangling⟩
  | '~' :: _ :: _ => .error ⟨position, .unknown⟩
  | c :: rest => (unescape (position + c.utf8Size) rest).map (c :: ·)

def unescapeToken (token : String) : Except EscapeError String :=
  (unescape 0 token.toList).map String.ofList

inductive Fault where
  | missingSlash
  | escape (fault : EscapeFault)
  deriving DecidableEq, Repr

def Fault.message : Fault → String
  | .missingSlash => "pointer must be empty or start with '/'"
  | .escape fault => fault.message

structure SyntaxError where
  pointer : String
  position : Nat
  fault : Fault
  deriving DecidableEq, Repr

def SyntaxError.message (error : SyntaxError) : String :=
  "invalid JSON pointer '" ++ error.pointer ++ "' at position " ++ natText error.position
    ++ ": " ++ error.fault.message

def readSegments (position : Nat) : List (List Char) → Except EscapeError (List String)
  | [] => .ok []
  | segment :: rest => do
    let token ← unescape position segment
    let others ← readSegments (position + byteLength segment + 1) rest
    pure (String.ofList token :: others)

def root : Pointer := ⟨[]⟩

def parse (text : String) : Except SyntaxError Pointer :=
  match text.toList with
  | [] => .ok root
  | '/' :: body =>
    match readSegments 1 (segments '/' body) with
    | .ok tokens => .ok ⟨tokens⟩
    | .error error => .error ⟨text, error.position, .escape error.fault⟩
  | _ => .error ⟨text, 0, .missingSlash⟩

def chars (pointer : Pointer) : List Char :=
  pointer.tokens.flatMap fun token => '/' :: escape token.toList

def text (pointer : Pointer) : String := String.ofList pointer.chars

def isRoot (pointer : Pointer) : Bool := pointer.tokens.isEmpty

def last? (pointer : Pointer) : Option String := pointer.tokens.getLast?

def parent? (pointer : Pointer) : Option Pointer :=
  if pointer.isRoot then none else some ⟨pointer.tokens.dropLast⟩

def parents (pointer : Pointer) : List Pointer :=
  (List.range pointer.tokens.length).reverse.map fun length => ⟨pointer.tokens.take length⟩

end Pointer

end JsonTree
