import JsonTree.Digit
import JsonTree.Number.Power

/-! Number literals that keep their digits.

A literal is held by its parts, so every `Number` is a valid literal and its text is
determined. Leading zeros of the fraction and of the exponent are part of the value;
the spelling of the exponent is not: it is always written `e` with a sign.
-/

set_option autoImplicit false

namespace JsonTree

structure Exponent where
  negative : Bool
  first : Digit
  more : List Digit
  deriving DecidableEq, Repr

/-- A number literal. An empty `fraction` means that no point is written. -/
structure Number where
  negative : Bool
  whole : Nat
  fraction : List Digit
  exponent : Option Exponent
  deriving DecidableEq, Repr

structure InvalidNumber where
  text : String
  deriving DecidableEq, Repr

def InvalidNumber.message (error : InvalidNumber) : String :=
  "invalid JSON number: " ++ error.text

def Exponent.digits (exponent : Exponent) : List Digit := exponent.first :: exponent.more

def Exponent.chars (exponent : Exponent) : List Char :=
  'e' :: (if exponent.negative then '-' else '+') :: Digit.chars exponent.digits

def Exponent.value (exponent : Exponent) : Int :=
  if exponent.negative then -(Digit.value exponent.digits : Int) else Digit.value exponent.digits

namespace Number

def signChars (number : Number) : List Char := if number.negative then ['-'] else []

def fractionChars (number : Number) : List Char :=
  match number.fraction with
  | [] => []
  | digits => '.' :: Digit.chars digits

def exponentChars (number : Number) : List Char :=
  match number.exponent with
  | none => []
  | some exponent => exponent.chars

def chars (number : Number) : List Char :=
  number.signChars ++ natChars number.whole ++ number.fractionChars ++ number.exponentChars

def text (number : Number) : String := String.ofList number.chars

def scanSign : List Char → Bool × List Char
  | '-' :: rest => (true, rest)
  | rest => (false, rest)

/-- The integer part leads with a zero only when that zero is all of it. -/
def scanWhole (text : List Char) : Option (Nat × List Char) :=
  match Digit.scan text with
  | ([], _) => none
  | (first :: more, rest) =>
    if first.val = 0 ∧ more ≠ [] then none else some (Digit.value (first :: more), rest)

def scanFraction : List Char → Option (List Digit × List Char)
  | '.' :: rest =>
    match Digit.scan rest with
    | ([], _) => none
    | (first :: more, rest) => some (first :: more, rest)
  | rest => some ([], rest)

def scanExponentSign : List Char → Bool × List Char
  | '-' :: rest => (true, rest)
  | '+' :: rest => (false, rest)
  | rest => (false, rest)

def scanPower (text : List Char) : Option (Option Exponent × List Char) :=
  match Digit.scan (scanExponentSign text).2 with
  | ([], _) => none
  | (first :: more, rest) => some (some ⟨(scanExponentSign text).1, first, more⟩, rest)

def scanExponent : List Char → Option (Option Exponent × List Char)
  | 'e' :: rest => scanPower rest
  | 'E' :: rest => scanPower rest
  | rest => some (none, rest)

/-- Read a number literal from the front of a text. A literal that breaks off after
its point or its `e` is no number. -/
def scan (text : List Char) : Option (Number × List Char) := do
  let (negative, text) := scanSign text
  let (whole, text) ← scanWhole text
  let (fraction, text) ← scanFraction text
  let (exponent, text) ← scanExponent text
  pure (⟨negative, whole, fraction, exponent⟩, text)

def read? (text : List Char) : Option Number :=
  match scan text with
  | some (number, []) => some number
  | _ => none

def parse (text : String) : Except InvalidNumber Number :=
  match read? text.toList with
  | some number => .ok number
  | none => .error ⟨text⟩

def ofInt (value : Int) : Number := ⟨value < 0, value.natAbs, [], none⟩

def isInteger (number : Number) : Bool :=
  number.fraction.isEmpty && number.exponent.isNone

def integer? (number : Number) : Option Int :=
  if number.isInteger then
    some (if number.negative then -(number.whole : Int) else number.whole)
  else none

def int64? (number : Number) : Option Int :=
  number.integer?.filter fun value => leastInt64 ≤ value ∧ value ≤ greatestInt64

/-- The value when it is an integer of the unsigned 64-bit range. A literal with a
minus sign is none, not even `-0`. -/
def uint64? (number : Number) : Option Int :=
  if number.negative then none
  else number.integer?.filter fun value => value ≤ greatestUInt64

def wideInteger? (number : Number) : Option Int := number.int64? <|> number.uint64?

theorem scanSign_length (text : List Char) : (scanSign text).2.length ≤ text.length := by
  unfold scanSign
  split <;> simp

theorem scanWhole_length {text rest : List Char} {whole : Nat}
    (read : scanWhole text = some (whole, rest)) : rest.length < text.length := by
  have taken := congrArg List.length (Digit.chars_scan text)
  unfold scanWhole at read
  split at read
  · contradiction
  · next first more left scanned =>
    split at read
    · contradiction
    · obtain ⟨-, rfl⟩ := Prod.mk.inj (Option.some.inj read)
      simp [scanned, Digit.chars] at taken
      omega

theorem scanFraction_length {text rest : List Char} {fraction : List Digit}
    (read : scanFraction text = some (fraction, rest)) : rest.length ≤ text.length := by
  unfold scanFraction at read
  split at read
  · next tail =>
    have shorter := Digit.scan_length tail
    split at read
    · contradiction
    · next scanned =>
      obtain ⟨-, rfl⟩ := Prod.mk.inj (Option.some.inj read)
      simp [scanned] at shorter ⊢
      omega
  · obtain ⟨-, rfl⟩ := Prod.mk.inj (Option.some.inj read)
    exact Nat.le_refl _

theorem scanExponentSign_length (text : List Char) :
    (scanExponentSign text).2.length ≤ text.length := by
  unfold scanExponentSign
  split <;> simp

theorem scanPower_length {text rest : List Char} {exponent : Option Exponent}
    (read : scanPower text = some (exponent, rest)) : rest.length ≤ text.length := by
  unfold scanPower at read
  have signed := scanExponentSign_length text
  have shorter := Digit.scan_length (scanExponentSign text).2
  split at read
  · contradiction
  · next scanned =>
    obtain ⟨-, rfl⟩ := Prod.mk.inj (Option.some.inj read)
    simp [scanned] at shorter
    omega

theorem scanExponent_length {text rest : List Char} {exponent : Option Exponent}
    (read : scanExponent text = some (exponent, rest)) : rest.length ≤ text.length := by
  unfold scanExponent at read
  split at read
  · have := scanPower_length read
    simp
    omega
  · have := scanPower_length read
    simp
    omega
  · obtain ⟨-, rfl⟩ := Prod.mk.inj (Option.some.inj read)
    exact Nat.le_refl _

theorem scan_length {text rest : List Char} {number : Number}
    (read : scan text = some (number, rest)) : rest.length < text.length := by
  have signed := scanSign_length text
  simp only [scan, bind, Option.bind_eq_some_iff, pure] at read
  obtain ⟨⟨whole, afterWhole⟩, wholeRead, ⟨fraction, afterFraction⟩, fractionRead,
    ⟨exponent, afterExponent⟩, exponentRead, result⟩ := read
  obtain ⟨-, rfl⟩ := Prod.mk.inj (Option.some.inj result)
  have wholeShorter : afterWhole.length < _ := scanWhole_length wholeRead
  have fractionShorter : afterFraction.length ≤ afterWhole.length :=
    scanFraction_length fractionRead
  have exponentShorter : afterExponent.length ≤ afterFraction.length :=
    scanExponent_length exponentRead
  simp only
  omega

end Number

end JsonTree
