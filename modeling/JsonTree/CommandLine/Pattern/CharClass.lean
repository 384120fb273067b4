import JsonTree.CommandLine.Pattern.Atom
import JsonTree.CommandLine.Pattern.Nesting

/-! Classes of characters in brackets. -/

set_option autoImplicit false

namespace JsonTree.CommandLine.Pattern.CharClass

def names : List String :=
  ["alnum", "alpha", "ascii", "blank", "cntrl", "digit", "graph", "lower", "print", "punct",
   "space", "upper", "word", "xdigit"]

/-- A class by name such as `[:alpha:]`, behind its bracket: whether it is negated, and
the text behind it. -/
def named? : List Char → Option (Bool × List Char)
  | ':' :: rest =>
    let (negated, rest) :=
      match rest with
      | '^' :: rest => (true, rest)
      | _ => (false, rest)
    match rest.dropWhile (· != ':') with
    | ':' :: ']' :: behind =>
      if names.contains (String.ofList (rest.takeWhile (· != ':'))) then some (negated, behind)
      else none
    | _ => none
  | _ => none

def isNamedAllowed (flags : Flags) (negated : Bool) : Bool :=
  if flags.unicode then !flags.ignoreCase else !negated

/-- Read a character, a property or a range, and give the text behind it. A `-` that
nothing or another `-` follows makes no range. -/
def readMember (flags : Flags) (text : List Char) : Option (List Char) := do
  let (low, rest) ← Atom.readInClass flags text
  let single := if low.isAllowedInClass flags then some rest else none
  match flags.skip rest with
  | '-' :: more =>
    match flags.skip more with
    | ']' :: _ | '-' :: _ => single
    | more => do
      let (high, behind) ← Atom.readInClass flags more
      if (← low.char?) ≤ (← high.char?) ∧ low.isAllowedInClass flags ∧ high.isAllowedInClass flags
      then some behind
      else none
  | _ => single

/-- Where in a class reading stands: `first` is behind a `^`, and `leading` behind the
first `-`. -/
inductive Place where
  | opening | first | leading | inside
  deriving DecidableEq, Repr

/-- What has been read of a class: the members of the last set in it, and the depth of
what stands in front of the operator before that set. -/
structure State where
  place : Place
  members : Sequence
  operand : Option Nat
  deriving DecidableEq, Repr

namespace State

def initial : State := ⟨.opening, Sequence.empty, none⟩

def depth (state : State) : Nat :=
  match state.operand with
  | none => state.members.depth
  | some operand => max operand state.members.depth + 1

def add (depth : Nat) (state : State) : State :=
  { state with place := .inside, members := state.members.add depth }

def operator (state : State) : State := ⟨.inside, Sequence.empty, some state.depth⟩

end State

/-- Read what is left of a class, and give its depth and the text behind its closing
bracket. Each step takes a character, so the length of the text is fuel enough. -/
def read (flags : Flags) : Nat → State → List Char → Option (Nat × List Char)
  | 0, _, _ => none
  | fuel + 1, state, text =>
    match state.place, flags.skip text with
    | _, [] => none
    | .opening, '^' :: rest =>
      if flags.unicode then read flags fuel { state with place := .first } rest else none
    | .opening, ']' :: rest | .first, ']' :: rest =>
      if (Atom.char ']').isAllowedInClass flags then read flags fuel (state.add 0) rest else none
    | .opening, '-' :: rest | .first, '-' :: rest | .leading, '-' :: rest =>
      if (Atom.char '-').isAllowedInClass flags then
        read flags fuel { state.add 0 with place := .leading } rest
      else none
    | _, ']' :: rest => some (state.depth + 1, rest)
    | _, '[' :: rest =>
      match named? rest with
      | some (negated, rest) =>
        if isNamedAllowed flags negated then read flags fuel (state.add 0) rest else none
      | none => do
        let (depth, rest) ← read flags fuel State.initial rest
        read flags fuel (state.add depth) rest
    | _, '&' :: '&' :: rest | _, '-' :: '-' :: rest | _, '~' :: '~' :: rest =>
      read flags fuel state.operator rest
    | _, text => do read flags fuel (state.add 0) (← readMember flags text)

end JsonTree.CommandLine.Pattern.CharClass
