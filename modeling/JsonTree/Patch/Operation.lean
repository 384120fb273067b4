import JsonTree.Value.Basic

/-! The operations of a JSON Patch (RFC 6902).

Pointers are kept as they were written; they are read when the operation is applied.
-/

set_option autoImplicit false

namespace JsonTree

inductive Operation where
  | add (path : String) (value : Value)
  | remove (path : String)
  | replace (path : String) (value : Value)
  | move (source path : String)
  | copy (source path : String)
  | test (path : String) (value : Value)
  deriving Inhabited

inductive OperationName where
  | add | remove | replace | move | copy | test
  deriving DecidableEq, Repr

def OperationName.text : OperationName → String
  | .add => "add"
  | .remove => "remove"
  | .replace => "replace"
  | .move => "move"
  | .copy => "copy"
  | .test => "test"

def OperationName.ofText? (text : String) : Option OperationName :=
  [.add, .remove, .replace, .move, .copy, .test].find? (·.text == text)

@[simp] theorem OperationName.ofText?_text (name : OperationName) :
    ofText? name.text = some name := by
  cases name <;> decide

namespace Operation

def name : Operation → OperationName
  | .add .. => .add
  | .remove .. => .remove
  | .replace .. => .replace
  | .move .. => .move
  | .copy .. => .copy
  | .test .. => .test

def path : Operation → String
  | .add path _ | .remove path | .replace path _ | .move _ path | .copy _ path
  | .test path _ => path

def source? : Operation → Option String
  | .move source _ | .copy source _ => some source
  | _ => none

end Operation

end JsonTree
