import JsonTree.Path.Printer
import JsonTree.Proofs.Number.Grammar
import JsonTree.Text.Whitespace

/-! The language of path expressions.

A relation `R text meaning rest` says that a text begins with a part of the language, what
the part means and what is behind it. Where a part runs as far as it can, the relation
also says why it ends there.
-/

set_option autoImplicit false

namespace JsonTree.Path

def Blanks (text : List Char) : Prop := ∀ c ∈ text, isWhitespace c = true

/-- A member name behind a point runs up to the next `.` or `[` or to the end. -/
structure Name (text : List Char) (name : String) (rest : List Char) : Prop where
  split : text = name.toList ++ rest
  nonempty : name.toList ≠ []
  noStar : name.toList.head? ≠ some '*'
  chars : ∀ c ∈ name.toList, c ∉ ['.', '[', ']', '\'', '"'] ∧ isWhitespace c = false
  longest : ∀ c ∈ rest.head?, c = '.' ∨ c = '['

/-- Text in quotes of one kind, and what it stands for: a backslash takes the next
character as it is. -/
inductive Escaped (quote : Char) : List Char → List Char → Prop where
  | nil : Escaped quote [] []
  | literal (c : Char) {text content : List Char} : Escaped quote text content →
      Escaped quote ('\\' :: c :: text) (c :: content)
  | plain {c : Char} {text content : List Char} : c ≠ '\\' → c ≠ quote →
      Escaped quote text content → Escaped quote (c :: text) (c :: content)

inductive Quoted : List Char → String → List Char → Prop where
  | text {quote : Char} {inner content : List Char} (rest : List Char) :
      quote = '\'' ∨ quote = '"' → Escaped quote inner content →
      Quoted (quote :: (inner ++ quote :: rest)) (String.ofList content) rest

/-- An index beyond the signed 64-bit range stops at the end of the range. -/
inductive Index : List Char → Int → List Char → Prop where
  | digits (negative : Bool) {digits : List Digit} {rest : List Char} : digits ≠ [] → NoDigit rest →
      Index ((if negative then ['-'] else []) ++ Digit.chars digits ++ rest)
        (saturate (if negative then -(Digit.value digits : Int) else Digit.value digits)) rest

/-- Text that leads from inside so many parentheses out of all of them, but no further.
Quoted text is taken as a whole. -/
inductive Enclosed : Nat → List Char → Prop where
  | nil : Enclosed 0 []
  | opening {depth : Nat} {text : List Char} : Enclosed (depth + 1) text →
      Enclosed depth ('(' :: text)
  | closing {depth : Nat} {text : List Char} : Enclosed depth text →
      Enclosed (depth + 1) (')' :: text)
  | quoted {depth : Nat} {text rest : List Char} {content : String} : Quoted text content rest →
      Enclosed depth rest → Enclosed depth text
  | plain {depth : Nat} {c : Char} {text : List Char} : c ∉ ['(', ')', '\'', '"'] →
      Enclosed depth text → Enclosed depth (c :: text)

def FieldChar (c : Char) : Prop := isWhitespace c = false ∧ c ∉ ['.', '=', '!', '<', '>']

instance : DecidablePred FieldChar := fun _ => inferInstanceAs (Decidable (_ ∧ _))

inductive Fields : List Char → List String → List Char → Prop where
  | last {name : String} {rest : List Char} : name.toList ≠ [] → (∀ c ∈ name.toList, FieldChar c) →
      (∀ c ∈ rest.head?, ¬ FieldChar c) → rest.head? ≠ some '.' →
      Fields ('.' :: (name.toList ++ rest)) [name] rest
  | more {name : String} {names : List String} {text rest : List Char} : name.toList ≠ [] →
      (∀ c ∈ name.toList, FieldChar c) → Fields text names rest →
      Fields ('.' :: (name.toList ++ text)) (name :: names) rest

/-- Of the operators that a text begins with, the longest one counts. -/
structure Operator (text : List Char) (comparator : Comparator) (rest : List Char) : Prop where
  split : text = comparator.chars ++ rest
  longest : ∀ other : Comparator, other.chars <+: text →
    other.chars.length ≤ comparator.chars.length

inductive Word : List Char → Literal → Prop where
  | yes : Word ['t', 'r', 'u', 'e'] (.bool true)
  | no : Word ['f', 'a', 'l', 's', 'e'] (.bool false)
  | null : Word ['n', 'u', 'l', 'l'] .null
  | number {word : List Char} {value : Number} : Number.Spelled word value →
      Word word (.number value)

inductive Constant : List Char → Literal → List Char → Prop where
  | string {text rest : List Char} {content : String} : Quoted text content rest →
      Constant text (.string content) rest
  | word {word rest : List Char} {literal : Literal} : Word word literal →
      (∀ c ∈ word, isWhitespace c = false) → (∀ c ∈ rest.head?, isWhitespace c = true) →
      Constant (word ++ rest) literal rest

inductive Comparison : List Char → Filter → Prop where
  | parts {front text before left behind right last : List Char} {field : List String}
      {comparator : Comparator} {literal : Literal} :
      Blanks front → Fields text field (before ++ left) →
      Blanks before → Operator left comparator (behind ++ right) →
      Blanks behind → Constant right literal last → Blanks last →
      Comparison (front ++ '@' :: text)
        ⟨String.ofList (front ++ '@' :: text), field, comparator, literal⟩

inductive Bracket : List Char → Selector → List Char → Prop where
  | wildcard (rest : List Char) : Bracket ('*' :: rest) .wildcard rest
  | index {text rest : List Char} {position : Int} : Index text position rest →
      Bracket text (.index position) rest
  | property {text rest : List Char} {name : String} : Quoted text name rest →
      Bracket text (.property name) rest
  | filter {blanks body : List Char} {filter : Filter} (rest : List Char) : Blanks blanks →
      Enclosed 0 body → Comparison body filter →
      Bracket ('?' :: (blanks ++ '(' :: (body ++ ')' :: rest))) (.filter filter) rest

inductive Segment : List Char → List Selector → List Char → Prop where
  | descent (rest : List Char) : Segment ('.' :: '.' :: rest) [.descent] rest
  | descentTo {text rest : List Char} {name : String} : Name text name rest →
      Segment ('.' :: '.' :: text) [.descent, .property name] rest
  | pointWildcard (rest : List Char) : Segment ('.' :: '*' :: rest) [.wildcard] rest
  | wildcard (rest : List Char) : Segment ('*' :: rest) [.wildcard] rest
  | property {text rest : List Char} {name : String} : Name text name rest →
      Segment ('.' :: text) [.property name] rest
  | bracket {before text after rest : List Char} {selector : Selector} : Blanks before →
      Bracket text selector (after ++ ']' :: rest) → Blanks after →
      Segment ('[' :: (before ++ text)) [selector] rest

inductive Segments : List Char → List Selector → Prop where
  | nil : Segments [] []
  | cons {text rest : List Char} {selectors more : List Selector} : Segment text selectors rest →
      Segments rest more → Segments text (selectors ++ more)

/-- An expression of the language and the selectors of its derivation. -/
inductive Derives : List Char → List Selector → Prop where
  | root {text : List Char} {selectors : List Selector} : Segments text selectors →
      Derives ('$' :: text) selectors

end JsonTree.Path
