/-! How deep the parts of a pattern lie in one another.

Parts that follow each other lie in a sequence, which counts as a level of its own when
it has more than one.
-/

set_option autoImplicit false

namespace JsonTree.CommandLine.Pattern

/-- A sequence of parts: their number, the depth of the last one, and the greatest depth
of those before it. -/
structure Sequence where
  length : Nat
  before : Nat
  last : Nat
  deriving DecidableEq, Repr

namespace Sequence

def empty : Sequence := ⟨0, 0, 0⟩

def add (depth : Nat) (parts : Sequence) : Sequence :=
  ⟨parts.length + 1, max parts.before parts.last, depth⟩

def wrapLast (parts : Sequence) : Sequence := { parts with last := parts.last + 1 }

def depth (parts : Sequence) : Nat :=
  let deepest := max parts.before parts.last
  if 1 < parts.length then deepest + 1 else deepest

end Sequence

def greatestDepth : Nat := 250

end JsonTree.CommandLine.Pattern
