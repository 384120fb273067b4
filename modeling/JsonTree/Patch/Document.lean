import JsonTree.Patch.Error
import JsonTree.Patch.Operation
import JsonTree.Value.Reader

/-! Patch documents: arrays of records, one for each operation.

Members of a record beyond those that its operation needs mean nothing, nor does the
order of its members or the case of its operation's name.
-/

set_option autoImplicit false

namespace JsonTree

namespace Operation

def record : Operation → Value
  | .add path value =>
    .object [("op", .string "add"), ("path", .string path), ("value", value)]
  | .remove path => .object [("op", .string "remove"), ("path", .string path)]
  | .replace path value =>
    .object [("op", .string "replace"), ("path", .string path), ("value", value)]
  | .move source path =>
    .object [("op", .string "move"), ("from", .string source), ("path", .string path)]
  | .copy source path =>
    .object [("op", .string "copy"), ("from", .string source), ("path", .string path)]
  | .test path value =>
    .object [("op", .string "test"), ("path", .string path), ("value", value)]

def lowercase (text : String) : String := String.ofList (text.toList.map Char.toLower)

def textField? (record : Value) (field : RecordField) : Option String :=
  (record.member? field.key).bind Value.string?

def build (record : Value) (path : String) : OperationName → Except PatchFault Operation
  | .add => withValue (.add path)
  | .remove => .ok (.remove path)
  | .replace => withValue (.replace path)
  | .move => withSource (.move · path)
  | .copy => withSource (.copy · path)
  | .test => withValue (.test path)
where
  withValue (make : Value → Operation) : Except PatchFault Operation :=
    match record.member? RecordField.value.key with
    | some value => .ok (make value)
    | none => .error (.missingField .value)
  withSource (make : String → Operation) : Except PatchFault Operation :=
    match textField? record .source with
    | some source => .ok (make source)
    | none => .error (.missingField .source)

/-- Read the members of a record in the order in which their faults count. -/
def ofMembers (record : Value) : Except PatchFault Operation :=
  match textField? record .op with
  | none => .error (.missingField .op)
  | some op =>
    match OperationName.ofText? (lowercase op) with
    | none => .error (.unknownOperation (lowercase op))
    | some name =>
      match textField? record .path with
      | none => .error (.missingField .path)
      | some path => build record path name

def ofRecord (record : Value) : Except (String × PatchFault) Operation :=
  match record with
  | .object _ => (ofMembers record).mapError fun fault =>
    ((textField? record .path).getD "", fault)
  | other => .error ("", .typeMismatch (.recordNoObject other.kind))

end Operation

abbrev Patch := List Operation

namespace Patch

def ofRecords (index : Nat) : List Value → Except PatchError Patch
  | [] => .ok []
  | record :: rest =>
    match Operation.ofRecord record with
    | .error (pointer, fault) => .error ⟨index, pointer, fault⟩
    | .ok operation => (ofRecords (index + 1) rest).map (operation :: ·)

def ofValue (document : Value) : Except PatchError Patch :=
  match document with
  | .array records => ofRecords 0 records
  | other => .error ⟨0, "", .typeMismatch (.documentNoArray other.kind)⟩

def toValue (patch : Patch) : Value := .array (patch.map Operation.record)

inductive ReadError where
  | text (error : JsonTree.ReadError)
  | patch (error : PatchError)
  deriving DecidableEq, Repr

def parse (text : String) : Except ReadError Patch :=
  match Value.parse text with
  | .error error => .error (.text error)
  | .ok document => (ofValue document).mapError .patch

end Patch

end JsonTree
