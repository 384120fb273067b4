import JsonTree.Text.Hex

/-! String literals of a JSON text.

Writing escapes what has to be escaped and nothing else. Reading goes in two steps:
escapes first become characters or UTF-16 units, and units are then paired. A unit that
stands for half a character is an error, and so is a bare control character.
-/

set_option autoImplicit false

namespace JsonTree.StringLiteral

def escape (c : Char) : List Char :=
  if c = '"' then ['\\', '"']
  else if c = '\\' then ['\\', '\\']
  else if c = '\x08' then ['\\', 'b']
  else if c = '\x0c' then ['\\', 'f']
  else if c = '\n' then ['\\', 'n']
  else if c = '\r' then ['\\', 'r']
  else if c = '\t' then ['\\', 't']
  else if c.toNat < 32 then
    ['\\', 'u', '0', '0', hexChar (c.toNat / 16), hexChar (c.toNat % 16)]
  else [c]

def encode (content : List Char) : List Char :=
  '"' :: content.flatMap escape ++ ['"']

def shortEscape? (c : Char) : Option Char :=
  if c = '"' ∨ c = '\\' ∨ c = '/' then some c
  else if c = 'b' then some '\x08'
  else if c = 'f' then some '\x0c'
  else if c = 'n' then some '\n'
  else if c = 'r' then some '\r'
  else if c = 't' then some '\t'
  else none

inductive Piece where
  | char (c : Char)
  | unit (value : Nat)
  deriving DecidableEq, Repr

def hexUnit? (a b c d : Char) : Option Nat := do
  let a ← hexValue? a
  let b ← hexValue? b
  let c ← hexValue? c
  let d ← hexValue? d
  pure (((a * 16 + b) * 16 + c) * 16 + d)

def scanPieces : List Char → Option (List Piece × List Char)
  | [] => none
  | '"' :: rest => some ([], rest)
  | '\\' :: 'u' :: a :: b :: c :: d :: rest => do
    let value ← hexUnit? a b c d
    let (pieces, rest) ← scanPieces rest
    pure (.unit value :: pieces, rest)
  | '\\' :: c :: rest => do
    let char ← shortEscape? c
    let (pieces, rest) ← scanPieces rest
    pure (.char char :: pieces, rest)
  | c :: rest =>
    if c.toNat < 32 ∨ c = '\\' then none
    else do
      let (pieces, rest) ← scanPieces rest
      pure (.char c :: pieces, rest)

def isHighUnit (value : Nat) : Bool := 0xD800 ≤ value && value < 0xDC00

def isLowUnit (value : Nat) : Bool := 0xDC00 ≤ value && value < 0xE000

def pairedChar (high low : Nat) : Char :=
  Char.ofNat (0x10000 + (high - 0xD800) * 0x400 + (low - 0xDC00))

def joinPieces : Option Nat → List Piece → Option (List Char)
  | none, [] => some []
  | some _, [] => none
  | none, .char c :: rest => (joinPieces none rest).map (c :: ·)
  | some _, .char _ :: _ => none
  | none, .unit value :: rest =>
    if isHighUnit value then joinPieces (some value) rest
    else if isLowUnit value then none
    else (joinPieces none rest).map (Char.ofNat value :: ·)
  | some high, .unit value :: rest =>
    if isLowUnit value then (joinPieces none rest).map (pairedChar high value :: ·) else none

def scan (text : List Char) : Option (List Char × List Char) := do
  let (pieces, rest) ← scanPieces text
  let content ← joinPieces none pieces
  pure (content, rest)

theorem scanPieces_length (text : List Char) {pieces : List Piece} {rest : List Char}
    (read : scanPieces text = some (pieces, rest)) : rest.length < text.length := by
  fun_induction scanPieces text generalizing pieces rest with
  | case1 => contradiction
  | case2 tail =>
    obtain ⟨-, rfl⟩ := Prod.mk.inj (Option.some.inj read)
    simp
  | case3 a b c d tail ih =>
    simp only [bind, Option.bind_eq_some_iff, pure] at read
    obtain ⟨_, -, ⟨more, left⟩, tailRead, result⟩ := read
    obtain ⟨-, rfl⟩ := Prod.mk.inj (Option.some.inj result)
    have := ih tailRead
    simp
    omega
  | case4 c tail _ ih =>
    simp only [bind, Option.bind_eq_some_iff, pure] at read
    obtain ⟨_, -, ⟨more, left⟩, tailRead, result⟩ := read
    obtain ⟨-, rfl⟩ := Prod.mk.inj (Option.some.inj result)
    have := ih tailRead
    simp
    omega
  | case5 => contradiction
  | case6 c tail _ _ _ _ ih =>
    simp only [bind, Option.bind_eq_some_iff, pure] at read
    obtain ⟨⟨more, left⟩, tailRead, result⟩ := read
    obtain ⟨-, rfl⟩ := Prod.mk.inj (Option.some.inj result)
    have := ih tailRead
    simp
    omega

theorem scan_length {text content rest : List Char} (read : scan text = some (content, rest)) :
    rest.length < text.length := by
  simp only [scan, bind, Option.bind_eq_some_iff, pure] at read
  obtain ⟨⟨pieces, left⟩, piecesRead, _, -, result⟩ := read
  obtain ⟨-, rfl⟩ := Prod.mk.inj (Option.some.inj result)
  exact scanPieces_length text piecesRead

end JsonTree.StringLiteral
