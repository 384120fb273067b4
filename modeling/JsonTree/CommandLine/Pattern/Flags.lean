import JsonTree.Text.Whitespace

/-! What the reading of a pattern depends on, and the marks that change it. -/

set_option autoImplicit false

namespace JsonTree.CommandLine.Pattern

/-- Whether the case of letters is ignored, whether characters are matched rather than
bytes, and whether blanks and comments are passed over. -/
structure Flags where
  ignoreCase : Bool
  unicode : Bool
  verbose : Bool
  deriving DecidableEq, Repr

namespace Flags

def initial : Flags := ⟨false, true, false⟩

def marks : List Char := ['-', 'i', 'm', 's', 'u', 'U', 'R', 'x']

/-- The marks up to a `:` or `)`, that character, and the text behind it. No mark is
given twice, and a `-` is not the last one. -/
def scanMarks (given : List Char) : List Char → Option (List Char × Char × List Char)
  | [] => none
  | c :: rest =>
    if c = ':' ∨ c = ')' then
      if given.getLast? = some '-' then none else some (given, c, rest)
    else if marks.contains c ∧ !given.contains c then scanMarks (given ++ [c]) rest
    else none

/-- What marks turn a flag to: those in front of a `-` set theirs, those behind clear it. -/
def marked (given : List Char) (mark : Char) (before : Bool) : Bool :=
  if (given.takeWhile (· != '-')).contains mark then true
  else if given.contains mark then false
  else before

def change (given : List Char) (flags : Flags) : Flags where
  ignoreCase := marked given 'i' flags.ignoreCase
  unicode := marked given 'u' flags.unicode
  verbose := marked given 'x' flags.verbose

def passOver (inComment : Bool) : List Char → List Char
  | [] => []
  | c :: rest =>
    if inComment then passOver (c != '\n') rest
    else if c = '#' then passOver true rest
    else if isWhitespace c then passOver false rest
    else c :: rest

def skip (flags : Flags) (text : List Char) : List Char :=
  if flags.verbose then passOver false text else text

end Flags

end JsonTree.CommandLine.Pattern
