import JsonTree.Path.Parser
import JsonTree.Path.Printer

/-! Reading path expressions by positions in their bytes.

A scanner moves a position through its text, adding up the sizes of the characters that it passes,
and cuts pieces out of the text by their positions. A cut beyond the end, inside a character or
from a later position to an earlier one is a fault of the scanner and not of the expression. The
body of a filter is cut out and read by a scanner of its own, whose positions count from the body
on, so an error adds where the body begins.

Every turn of a loop has to pass a character. That it does is not part of the loops, which count
their turns, and one that takes more turns than its text has characters is a fault of the scanner,
too.
-/

set_option autoImplicit false

namespace JsonTree.Path

inductive Halt where
  | badCut
  | endless
  | refused (error : SyntaxError)
  deriving DecidableEq, Repr

abbrev Scan := Except Halt

/-- A text that is read. It begins `base` bytes into the expression. -/
structure Scanner where
  source : String
  input : List Char
  base : Nat

def int64OfText? (text : List Char) : Option Int := do
  let (negative, unsigned) := Number.scanSign text
  let digits ← Digit.all? unsigned
  let value : Int := if negative then -Digit.value digits else Digit.value digits
  if leastInt64 ≤ value ∧ value ≤ greatestInt64 then some value else none

/-- How many bytes stand in front of the parenthesis that closes. -/
def findClosing (depth : Nat) (quote : Option Char) (escaped : Bool) (offset : Nat) :
    List Char → Option Nat
  | [] => none
  | c :: rest =>
    let next := offset + c.utf8Size
    match quote with
    | some mark =>
      if escaped then findClosing depth quote false next rest
      else if c = '\\' then findClosing depth quote true next rest
      else findClosing depth (if c = mark then none else quote) false next rest
    | none =>
      if isQuote c then findClosing depth (some c) escaped next rest
      else if c = '(' then findClosing (depth + 1) none escaped next rest
      else if c = ')' then
        if depth = 0 then some offset else findClosing (depth - 1) none escaped next rest
      else findClosing depth none escaped next rest

/-- Those of two characters come first, so that no other is read in their place. -/
def Comparator.longestFirst : List Comparator :=
  [.equal, .notEqual, .atLeast, .atMost, .greater, .less]

namespace Scanner

variable (scanner : Scanner)

/-- A turn for each character, and one to see that there is nothing left to do. -/
def turns : Nat := scanner.input.length + 1

def refuse {α : Type} (position : Nat) (fault : Fault) : Scan α :=
  throw (.refused ⟨scanner.source, scanner.base + position, fault⟩)

def remaining (position : Nat) : Scan (List Char) :=
  match cutBytes position scanner.input with
  | some (_, rest) => pure rest
  | none => throw .badCut

def slice (start stop : Nat) : Scan (List Char) := do
  if stop < start then throw .badCut
  match cutBytes (stop - start) (← scanner.remaining start) with
  | some (piece, _) => pure piece
  | none => throw .badCut

def peek? (position : Nat) : Scan (Option Char) := do
  return (← scanner.remaining position).head?

def bump (position : Nat) : Scan (Option Char × Nat) := do
  match ← scanner.peek? position with
  | some c => pure (some c, position + c.utf8Size)
  | none => pure (none, position)

def skipWhile (accepts : Char → Bool) : Nat → Nat → Scan Nat
  | 0, _ => throw .endless
  | turns + 1, position => do
    if (← scanner.peek? position).any accepts then
      skipWhile accepts turns (← scanner.bump position).2
    else pure position

def skipBlanks (position : Nat) : Scan Nat :=
  scanner.skipWhile isWhitespace scanner.turns position

def skipName : Nat → Nat → Scan Nat
  | 0, _ => throw .endless
  | turns + 1, position => do
    match ← scanner.peek? position with
    | none => pure position
    | some c =>
      if c = '.' ∨ c = '[' then pure position
      else if c = ']' ∨ c = '\'' ∨ c = '"' then scanner.refuse position (.unexpectedInName c)
      else if isWhitespace c then scanner.refuse position .blankInName
      else skipName turns (← scanner.bump position).2

def name (position : Nat) : Scan (String × Nat) := do
  let last ← scanner.skipName scanner.turns position
  if last = position then scanner.refuse position .missingName
  else pure (String.ofList (← scanner.slice position last), last)

def quotedText (opening : Nat) (quote : Char) : Nat → List Char → Nat → Scan (String × Nat)
  | 0, _, _ => throw .endless
  | turns + 1, content, position => do
    match ← scanner.bump position with
    | (none, _) => scanner.refuse opening .unterminatedString
    | (some c, next) =>
      if c = '\\' then
        match ← scanner.bump next with
        | (none, _) => scanner.refuse opening .unterminatedString
        | (some escaped, next) => quotedText opening quote turns (content ++ [escaped]) next
      else if c = quote then pure (String.ofList content, next)
      else quotedText opening quote turns (content ++ [c]) next

def quoted (quote : Char) (position : Nat) : Scan (String × Nat) := do
  scanner.quotedText position quote scanner.turns [] (← scanner.bump position).2

def skipMinus (position : Nat) : Scan Nat := do
  if (← scanner.peek? position) = some '-' then pure (← scanner.bump position).2
  else pure position

def index (position : Nat) : Scan (Int × Nat) := do
  let unsigned ← scanner.skipMinus position
  let last ← scanner.skipWhile (fun c => (Digit.ofChar? c).isSome) scanner.turns unsigned
  let text ← scanner.slice position last
  if text.getLast?.any (fun c => (Digit.ofChar? c).isSome) then
    let bound := if text.head? = some '-' then leastInt64 else greatestInt64
    pure ((int64OfText? text).getD bound, last)
  else scanner.refuse position .badIndex

def fields : Nat → List String → Nat → Scan (List String × Nat)
  | 0, _, _ => throw .endless
  | turns + 1, names, position => do
    if (← scanner.peek? position) = some '.' then
      let start := (← scanner.bump position).2
      let last ← scanner.skipWhile isFieldChar scanner.turns start
      if last = start then scanner.refuse start .missingField
      else fields turns (names ++ [String.ofList (← scanner.slice start last)]) last
    else pure (names, position)

def comparator (position : Nat) : Scan (Comparator × Nat) := do
  let rest ← scanner.remaining position
  match Comparator.longestFirst.find? fun comparator => comparator.chars.isPrefixOf rest with
  | some comparator => pure (comparator, position + byteLength comparator.chars)
  | none => scanner.refuse position .missingComparator

def word (position : Nat) : Scan (Literal × Nat) := do
  let last ← scanner.skipWhile isWordChar scanner.turns position
  match ← scanner.slice position last with
  | [] => scanner.refuse position .missingLiteral
  | word =>
    match Literal.ofWord? word with
    | some literal => pure (literal, last)
    | none => scanner.refuse position (.badLiteral (String.ofList word))

def literal (position : Nat) : Scan (Literal × Nat) := do
  match ← scanner.peek? position with
  | some c =>
    if isQuote c then
      let (content, last) ← scanner.quoted c position
      pure (.string content, last)
    else scanner.word position
  | none => scanner.word position

def comparison : Scan Filter := do
  let item ← scanner.skipBlanks 0
  if ['@', '.'].isPrefixOf (← scanner.remaining item) then
    let (field, last) ← scanner.fields scanner.turns [] (item + 1)
    let (comparator, last) ← scanner.comparator (← scanner.skipBlanks last)
    let (literal, last) ← scanner.literal (← scanner.skipBlanks last)
    let last ← scanner.skipBlanks last
    if last = byteLength scanner.input then
      pure ⟨String.ofList scanner.input, field, comparator, literal⟩
    else scanner.refuse last .textAfterLiteral
  else scanner.refuse item .missingItem

def filter (position : Nat) : Scan (Filter × Nat) := do
  let opening ← scanner.skipBlanks position
  if (← scanner.peek? opening) = some '(' then
    let start := (← scanner.bump opening).2
    match findClosing 0 none false 0 (← scanner.remaining start) with
    | none => scanner.refuse opening .unclosedParenthesis
    | some length =>
      let body ← scanner.slice start (start + length)
      let filter ← comparison ⟨scanner.source, body, scanner.base + start⟩
      pure (filter, start + length + 1)
  else scanner.refuse opening .missingParenthesis

def bracketContent (opening position : Nat) : Scan (Selector × Nat) := do
  match ← scanner.peek? position with
  | none => scanner.refuse opening .unclosedBracket
  | some '*' => pure (.wildcard, (← scanner.bump position).2)
  | some '?' =>
    let (filter, last) ← scanner.filter (← scanner.bump position).2
    pure (.filter filter, last)
  | some c =>
    if isQuote c then
      let (name, last) ← scanner.quoted c position
      pure (.property name, last)
    else if c = '-' ∨ (Digit.ofChar? c).isSome then
      let (index, last) ← scanner.index position
      pure (.index index, last)
    else scanner.refuse position .badBracket

def bracket (opening : Nat) : Scan (Selector × Nat) := do
  let inside ← scanner.skipBlanks (← scanner.bump opening).2
  let (selector, last) ← scanner.bracketContent opening inside
  let last ← scanner.skipBlanks last
  match ← scanner.bump last with
  | (some ']', after) => pure (selector, after)
  | (none, _) => scanner.refuse opening .unclosedBracket
  | (some c, _) => scanner.refuse last (.missingBracket c)

def descent (position : Nat) : Scan (List Selector × Nat) := do
  if (← scanner.peek? position).all fun c => c == '.' || c == '[' || c == '*' then
    pure ([.descent], position)
  else
    let (name, last) ← scanner.name position
    pure ([.descent, .property name], last)

def member (position : Nat) : Scan (List Selector × Nat) := do
  if (← scanner.peek? position) = some '*' then
    pure ([.wildcard], (← scanner.bump position).2)
  else
    let (name, last) ← scanner.name position
    pure ([.property name], last)

def segment (c : Char) (position : Nat) : Scan (List Selector × Nat) := do
  if c = '.' then
    if (← scanner.remaining position)[1]? = some '.' then scanner.descent (position + 2)
    else scanner.member (← scanner.bump position).2
  else if c = '[' then
    let (selector, last) ← scanner.bracket position
    pure ([selector], last)
  else if c = '*' then pure ([.wildcard], (← scanner.bump position).2)
  else scanner.refuse position (.unexpected c)

def selectors : Nat → List Selector → Nat → Scan (List Selector)
  | 0, _, _ => throw .endless
  | turns + 1, found, position => do
    match ← scanner.peek? position with
    | none => pure found
    | some c =>
      let (more, last) ← scanner.segment c position
      selectors turns (found ++ more) last

end Scanner

def compile (expression : String) : Scan Path := do
  let scanner : Scanner := ⟨expression, expression.toList, 0⟩
  match ← scanner.peek? 0 with
  | none => scanner.refuse 0 .emptyExpression
  | some c =>
    if c = '$' then
      pure ⟨expression, ← scanner.selectors scanner.turns [] (← scanner.bump 0).2⟩
    else scanner.refuse 0 .missingRoot

end JsonTree.Path
