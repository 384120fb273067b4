import JsonTree.CommandLine.Pattern.CharClass
import JsonTree.Digit
import JsonTree.Text.Alphanumeric

/-! Patterns: regular expressions for the values of fields.

No value is ever matched, so all that counts is whether a text is a pattern. A brace is
none, since no text reaches this far with a closing one.
-/

set_option autoImplicit false

namespace JsonTree.CommandLine.Pattern

inductive Fault where
  | malformed
  | wordEdge
  deriving DecidableEq, Repr

def Fault.message : Fault → String
  | .malformed => "error building NFA"
  | .wordEdge =>
    "unsupported regex feature for DFAs: cannot build DFAs for regexes with Unicode word "
      ++ "boundaries; switch to ASCII word boundaries, or heuristically enable Unicode word "
      ++ "boundaries or use a different regex engine"

/-- What has been read of a group: its last branch, and the greatest depth of those
before it. -/
structure Level where
  parts : Sequence
  branches : Option Nat
  deriving DecidableEq, Repr

namespace Level

def empty : Level := ⟨Sequence.empty, none⟩

def depth (level : Level) : Nat :=
  match level.branches with
  | none => level.parts.depth
  | some depth => max depth level.parts.depth + 1

def branch (level : Level) : Level :=
  ⟨Sequence.empty, some (max (level.branches.getD 0) level.parts.depth)⟩

def add (depth : Nat) (level : Level) : Level := { level with parts := level.parts.add depth }

end Level

/-- What has been read of a pattern: the flags and the innermost open group, those to
return to, and the names of groups. The last part may be something to repeat, and there
may have been an edge of a word in the sense of Unicode. -/
structure State where
  flags : Flags
  level : Level
  enclosing : List (Flags × Level)
  names : List (List Char)
  repeatable : Bool
  wordEdge : Bool
  deriving DecidableEq, Repr

namespace State

def initial : State := ⟨Flags.initial, Level.empty, [], [], false, false⟩

def enter (flags : Flags) (state : State) : State :=
  { state with
    flags := flags
    level := Level.empty
    enclosing := (state.flags, state.level) :: state.enclosing
    repeatable := false }

def add (depth : Nat) (state : State) : State :=
  { state with level := state.level.add depth, repeatable := true }

def isNameStart (c : Char) : Bool :=
  c == '_' || (isAlphanumeric c && (Digit.ofChar? c).isNone)

def isNameChar (c : Char) : Bool :=
  c == '_' || c == '.' || c == '[' || c == ']' || isAlphanumeric c

def readName (state : State) (text : List Char) : Option (State × List Char) :=
  let name := text.takeWhile (· != '>')
  match name, text.dropWhile (· != '>') with
  | first :: more, _ :: rest =>
    if isNameStart first ∧ more.all isNameChar ∧ !state.names.contains name then
      some ({ state.enter state.flags with names := name :: state.names }, rest)
    else none
  | _, _ => none

def readGroup (state : State) : List Char → Option (State × List Char)
  | '?' :: 'P' :: '<' :: rest | '?' :: '<' :: rest => state.readName rest
  | '?' :: rest => do
    let (marks, ending, rest) ← Flags.scanMarks [] rest
    let flags := state.flags.change marks
    if ending = ':' then some (state.enter flags, rest)
    else if marks.isEmpty then none
    else some ({ state.add 0 with flags := flags, repeatable := false }, rest)
  | rest => some (state.enter state.flags, rest)

def readAtom (state : State) (text : List Char) : Option (State × List Char) := do
  let (atom, rest) ← Atom.read state.flags text
  if atom.isAllowed state.flags then
    let wordEdge := state.wordEdge || (atom == .wordEdge && state.flags.unicode)
    some ({ state.add 0 with wordEdge := wordEdge }, rest)
  else none

def read (state : State) : List Char → Option (State × List Char)
  | [] => none
  | '(' :: rest => state.readGroup (state.flags.skip rest)
  | ')' :: rest =>
    match state.enclosing with
    | [] => none
    | (flags, level) :: enclosing =>
      let outer := { state with flags := flags, level := level, enclosing := enclosing }
      some (outer.add (state.level.depth + 1), rest)
  | '|' :: rest => some ({ state with level := state.level.branch, repeatable := false }, rest)
  | '[' :: rest => do
    let (depth, rest) ←
      CharClass.read state.flags (rest.length + 1) CharClass.State.initial rest
    some (state.add depth, rest)
  | '?' :: '?' :: rest | '*' :: '?' :: rest | '+' :: '?' :: rest
  | '?' :: rest | '*' :: rest | '+' :: rest =>
    if state.repeatable then
      some ({ state with level := ⟨state.level.parts.wrapLast, state.level.branches⟩ }, rest)
    else none
  | '\x7b' :: _ => none
  | text => state.readAtom text

/-- Read a pattern to its end, where no group is open. Each step takes a character, so
the length of the text is fuel enough. -/
def scan : Nat → State → List Char → Option State
  | 0, _, _ => none
  | fuel + 1, state, text =>
    match state.flags.skip text with
    | [] =>
      if state.enclosing.isEmpty ∧ state.level.depth ≤ greatestDepth then some state else none
    | text => do
      let (state, rest) ← state.read text
      scan fuel state rest

end State

def check (text : List Char) : Except Fault Unit :=
  match State.scan (text.length + 1) State.initial text with
  | none => .error .malformed
  | some state => if state.wordEdge then .error .wordEdge else .ok ()

end JsonTree.CommandLine.Pattern
