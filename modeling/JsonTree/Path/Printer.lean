import JsonTree.Path.Selector
import JsonTree.Text.Alphanumeric

/-! The canonical texts of selectors and of paths.

A member name is written after a point when it is plain, and quoted in brackets
otherwise. Directly after `..` a plain name stands without its point.
-/

set_option autoImplicit false

namespace JsonTree

def isPlain (c : Char) : Bool := isAlphanumeric c || c == '_' || c == '-' || c == '$'

def isPlainName (name : List Char) : Bool := !name.isEmpty && name.all isPlain

def escapeQuoted (c : Char) : List Char := if c = '\\' ∨ c = '\'' then ['\\', c] else [c]

def quotedChars (content : List Char) : List Char :=
  '\'' :: content.flatMap escapeQuoted ++ ['\'']

def Comparator.chars : Comparator → List Char
  | .equal => ['=', '=']
  | .notEqual => ['!', '=']
  | .atLeast => ['>', '=']
  | .atMost => ['<', '=']
  | .greater => ['>']
  | .less => ['<']

def Literal.chars : Literal → List Char
  | .string content => quotedChars content.toList
  | .number value => value.chars
  | .bool true => ['t', 'r', 'u', 'e']
  | .bool false => ['f', 'a', 'l', 's', 'e']
  | .null => ['n', 'u', 'l', 'l']

def fieldChars (field : List String) : List Char :=
  field.flatMap fun name => '.' :: name.toList

def Filter.chars (filter : Filter) : List Char :=
  '@' :: (if filter.field.isEmpty then ['.'] else fieldChars filter.field)
    ++ ' ' :: filter.comparator.chars ++ ' ' :: filter.literal.chars

def Selector.chars : Selector → List Char
  | .property name =>
    if isPlainName name.toList then '.' :: name.toList
    else '[' :: quotedChars name.toList ++ [']']
  | .index position => '[' :: intChars position ++ [']']
  | .wildcard => ['[', '*', ']']
  | .descent => ['.', '.']
  | .filter condition => '[' :: '?' :: '(' :: condition.chars ++ [')', ']']

def Selector.isDescent : Selector → Bool
  | .descent => true
  | _ => false

def selectorsChars (bare : Bool) : List Selector → List Char
  | [] => []
  | selector :: rest =>
    (match selector with
      | .property name =>
        if bare && isPlainName name.toList then name.toList else selector.chars
      | _ => selector.chars)
    ++ selectorsChars selector.isDescent rest

namespace Path

def chars (path : Path) : List Char := '$' :: selectorsChars false path.selectors

def canonical (path : Path) : String := String.ofList path.chars

end Path

def Comparator.text (comparator : Comparator) : String := String.ofList comparator.chars

def Literal.text (literal : Literal) : String := String.ofList literal.chars

def Selector.text (selector : Selector) : String := String.ofList selector.chars

end JsonTree
