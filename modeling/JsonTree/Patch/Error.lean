import JsonTree.Pointer.Lookup

/-! Why a patch cannot be read or applied. -/

set_option autoImplicit false

namespace JsonTree

inductive Mismatch where
  | documentNoArray (kind : Kind)
  | recordNoObject (kind : Kind)
  | descend (kind : Kind)
  | addTo (kind : Kind)
  | removeFrom (kind : Kind)
  | replaceIn (kind : Kind)
  | removeRoot
  deriving DecidableEq, Repr

def Mismatch.message : Mismatch → String
  | .documentNoArray kind => "patch document must be an array, found " ++ kind.name
  | .recordNoObject kind => "patch operation must be an object, found " ++ kind.name
  | .descend kind => (LookupError.typeMismatch kind).message
  | .addTo kind => "cannot add a member to a " ++ kind.name
  | .removeFrom kind => "cannot remove a member from a " ++ kind.name
  | .replaceIn kind => "cannot replace a member of a " ++ kind.name
  | .removeRoot => "the document root cannot be removed"

inductive RecordField where
  | op | path | value | source
  deriving DecidableEq, Repr

def RecordField.key : RecordField → String
  | .op => "op"
  | .path => "path"
  | .value => "value"
  | .source => "from"

inductive PatchFault where
  | invalidPointer (position : Nat) (fault : Pointer.Fault)
  | pathNotFound
  | indexOutOfRange
  | typeMismatch (mismatch : Mismatch)
  | testFailed
  | unknownOperation (name : String)
  | missingField (field : RecordField)
  deriving DecidableEq, Repr

def PatchFault.ofLookup : LookupError → PatchFault
  | .pathNotFound => .pathNotFound
  | .indexOutOfRange => .indexOutOfRange
  | .typeMismatch kind => .typeMismatch (.descend kind)

/-- The first operation that failed, by its place in the patch, and the text of the
pointer that it failed at. -/
structure PatchError where
  index : Nat
  pointer : String
  fault : PatchFault
  deriving DecidableEq, Repr

def pointerDetail (position : Nat) (fault : Pointer.Fault) : String :=
  fault.message ++ " (position " ++ natText position ++ ")"

def PatchError.message (error : PatchError) : String :=
  let quoted := "'" ++ error.pointer ++ "'"
  "operation " ++ natText error.index ++ ": " ++
    match error.fault with
    | .invalidPointer position fault =>
      "invalid pointer " ++ quoted ++ ": " ++ pointerDetail position fault
    | .pathNotFound => "path not found: " ++ quoted
    | .indexOutOfRange => "index out of range: " ++ quoted
    | .typeMismatch mismatch => "type mismatch at " ++ quoted ++ ": " ++ mismatch.message
    | .testFailed => "test failed at " ++ quoted
    | .unknownOperation name => "unknown operation '" ++ name ++ "'"
    | .missingField field => "missing or invalid field '" ++ field.key ++ "'"

end JsonTree
