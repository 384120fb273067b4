import Mathlib.Logic.Relation
import JsonTree.Patch.Document
import JsonTree.Proofs.Outcome
import JsonTree.Proofs.Related
import JsonTree.Proofs.Text.LetterCase
import JsonTree.Proofs.Value.Members
import JsonTree.Proofs.Value.RoundTrip

/-! Reading a patch document undoes writing the patch, and looks at four members only.

A record means an operation when its members say so under the keys that the operation needs.
What stands under other keys, the order of the members and the case of the operation's name
change nothing, and a document that cannot be read is refused for its first record that means
no operation.
-/

set_option autoImplicit false

namespace JsonTree

theorem Members.get?_perm {members others : Members} (distinct : (keys members).Nodup)
    (same : members.Perm others) (key : String) : get? key members = get? key others := by
  have otherDistinct : (keys others).Nodup := (same.map Prod.fst).nodup_iff.mp distinct
  ext value
  constructor
  · intro found
    exact get?_of_mem otherDistinct (same.mem_iff.mp (mem_of_get? found))
  · intro found
    exact get?_of_mem distinct (same.mem_iff.mpr (mem_of_get? found))

theorem Value.string?_eq_some_iff {value : Value} {content : String} :
    value.string? = some content ↔ value = .string content := by
  cases value <;> simp [string?]

theorem RecordField.key_injective {field other : RecordField} (same : field.key = other.key) :
    field = other := by
  cases field <;> cases other <;> first | rfl | exact absurd same (by decide)

namespace Operation

variable {record other : Value} {operation : Operation}

theorem textField?_eq_some_iff {field : RecordField} {text : String} :
    textField? record field = some text ↔ record.member? field.key = some (.string text) := by
  rw [textField?, Option.bind_eq_some_iff]
  simp only [Value.string?_eq_some_iff]
  exact ⟨fun ⟨_, found, same⟩ => same ▸ found, fun found => ⟨_, found, rfl⟩⟩

theorem lowercase_eq_iff {text name : String} :
    lowercase text = lowercase name ↔ SameButCase text name := by
  rw [lowercase, lowercase, String.ofList_inj, sameButCase_iff]

theorem lowercase_name (name : OperationName) : lowercase name.text = name.text := by
  cases name <;> decide

theorem ofText?_lowercase_eq_some_iff {text : String} {name : OperationName} :
    OperationName.ofText? (lowercase text) = some name ↔ SameButCase text name.text := by
  rw [← lowercase_eq_iff, lowercase_name]
  constructor
  · intro read
    unfold OperationName.ofText? at read
    have named := List.find?_some read
    exact (beq_iff_eq.mp named).symm
  · intro same
    rw [same, OperationName.ofText?_text]

def value? : Operation → Option Value
  | .add _ value | .replace _ value | .test _ value => some value
  | _ => none

structure Describes (record : Value) (operation : Operation) : Prop where
  op : ∃ name, record.member? "op" = some (.string name) ∧ SameButCase name operation.name.text
  path : record.member? "path" = some (.string operation.path)
  value : ∀ value ∈ operation.value?, record.member? "value" = some value
  source : ∀ source ∈ operation.source?, record.member? "from" = some (.string source)

theorem describes_record (operation : Operation) : Describes operation.record operation := by
  constructor
  · exact ⟨operation.name.text, by cases operation <;> rfl, rfl⟩
  · cases operation <;> rfl
  · cases operation <;> simp [value?, record, Value.member?, Value.object?, Members.get?]
  · cases operation <;> simp [source?, record, Value.member?, Value.object?, Members.get?]

theorem withValue_eq_ok_iff {make : Value → Operation} :
    build.withValue record make = .ok operation
      ↔ ∃ value, record.member? "value" = some value ∧ make value = operation := by
  simp only [build.withValue, RecordField.key]
  cases record.member? "value" <;> simp

theorem withSource_eq_ok_iff {make : String → Operation} :
    build.withSource record make = .ok operation
      ↔ ∃ source, record.member? "from" = some (.string source) ∧ make source = operation := by
  have read (source : String) : record.member? "from" = some (.string source)
      ↔ textField? record .source = some source :=
    (@textField?_eq_some_iff record .source source).symm
  simp only [read, build.withSource]
  cases textField? record .source <;> simp

theorem build_eq_ok_iff {path : String} {name : OperationName} :
    build record path name = .ok operation
      ↔ operation.name = name ∧ operation.path = path
        ∧ (∀ value ∈ operation.value?, record.member? "value" = some value)
        ∧ ∀ source ∈ operation.source?, record.member? "from" = some (.string source) := by
  constructor
  · intro built
    cases name with
    | add | replace | test =>
      obtain ⟨value, found, rfl⟩ := withValue_eq_ok_iff.mp built
      simpa [Operation.name, Operation.path, value?, source?] using found
    | move | copy =>
      obtain ⟨source, found, rfl⟩ := withSource_eq_ok_iff.mp built
      simpa [Operation.name, Operation.path, value?, source?] using found
    | remove =>
      obtain rfl := Except.ok.inj built
      simp [Operation.name, Operation.path, value?, source?]
  · rintro ⟨rfl, rfl, value, source⟩
    cases operation with
    | add path held | replace path held | test path held =>
      exact withValue_eq_ok_iff.mpr ⟨held, value held rfl, rfl⟩
    | move origin path | copy origin path =>
      exact withSource_eq_ok_iff.mpr ⟨origin, source origin rfl, rfl⟩
    | remove path => rfl

theorem ofMembers_eq_ok_iff : ofMembers record = .ok operation ↔ Describes record operation := by
  constructor
  · intro read
    unfold ofMembers at read
    split at read
    · contradiction
    · next op found =>
      split at read
      · contradiction
      · next name known =>
        split at read
        · contradiction
        · next path located =>
          obtain ⟨rfl, rfl, value, source⟩ := build_eq_ok_iff.mp read
          exact ⟨⟨op, textField?_eq_some_iff.mp found, ofText?_lowercase_eq_some_iff.mp known⟩,
            textField?_eq_some_iff.mp located, value, source⟩
  · rintro ⟨⟨op, found, same⟩, located, value, source⟩
    have named : textField? record .op = some op := textField?_eq_some_iff.mpr found
    have placed : textField? record .path = some operation.path :=
      textField?_eq_some_iff.mpr located
    simp only [ofMembers, named, ofText?_lowercase_eq_some_iff.mpr same, placed]
    exact build_eq_ok_iff.mpr ⟨rfl, rfl, value, source⟩

theorem ofRecord_eq_ok_iff : ofRecord record = .ok operation ↔ Describes record operation := by
  cases record with
  | object members => exact mapError_eq_ok_iff.trans ofMembers_eq_ok_iff
  | _ =>
    refine ⟨nofun, ?_⟩
    rintro ⟨⟨op, found, -⟩, -⟩
    contradiction

def Malformed (record : Value) : Prop := ∀ operation, ¬ Describes record operation

theorem not_malformed_iff : ¬ Malformed record ↔ ∃ operation, ofRecord record = .ok operation := by
  simp [Malformed, ofRecord_eq_ok_iff]

theorem malformed_iff : Malformed record ↔ ∃ cause, ofRecord record = .error cause := by
  rw [← not_iff_not, not_malformed_iff]
  cases ofRecord record <;> simp

structure ReadAlike (record other : Value) : Prop where
  op : (textField? record .op).map lowercase = (textField? other .op).map lowercase
  rest : ∀ field, field ≠ RecordField.op → record.member? field.key = other.member? field.key

namespace ReadAlike

variable (alike : ReadAlike record other)

include alike

theorem textField? (field : RecordField) (notOp : field ≠ .op) :
    Operation.textField? record field = Operation.textField? other field := by
  rw [Operation.textField?, Operation.textField?, alike.rest field notOp]

theorem build (path : String) (name : OperationName) :
    Operation.build record path name = Operation.build other path name := by
  have value := alike.rest .value nofun
  have source := alike.textField? .source nofun
  cases name <;> simp only [Operation.build, build.withValue, build.withSource, value, source]

theorem ofMembers : Operation.ofMembers record = Operation.ofMembers other := by
  have op := alike.op
  have path := alike.textField? .path nofun
  unfold Operation.ofMembers
  rw [path]
  cases first : Operation.textField? record .op with
  | none =>
    rw [first] at op
    rw [Option.map_eq_none_iff.mp op.symm]
  | some name =>
    rw [first] at op
    obtain ⟨text, second, same⟩ := Option.map_eq_some_iff.mp op.symm
    simp only [second, ← same, alike.build]

end ReadAlike

-- Keys may be added that stand there already, and an operation's name may be recased that is
-- not the one that is read. No value has such members, but nothing depends on that.

/-- A change to a record that leaves alone what is read of it: other members may be added, and
members may change their order and the operation's name the case of its letters. -/
inductive Rewording : Value → Value → Prop where
  | reorder {members others : Members} (distinct : (Members.keys members).Nodup)
      (same : members.Perm others) : Rewording (.object members) (.object others)
  | extend (front back : Members) {key : String} (value : Value)
      (foreign : key ∉ ["op", "path", "value", "from"]) :
      Rewording (.object (front ++ back)) (.object (front ++ (key, value) :: back))
  | recase (front back : Members) {name other : String} (same : SameButCase name other) :
      Rewording (.object (front ++ ("op", .string name) :: back))
        (.object (front ++ ("op", .string other) :: back))

theorem readAlike_of_members (same : ∀ field : RecordField,
    record.member? field.key = other.member? field.key) : ReadAlike record other :=
  ⟨by rw [textField?, textField?, same .op], fun field _ => same field⟩

theorem Rewording.readAlike (change : Rewording record other) : ReadAlike record other := by
  cases change with
  | reorder distinct same =>
    exact readAlike_of_members fun field => Members.get?_perm distinct same field.key
  | extend front back value foreign =>
    refine readAlike_of_members fun field => (Members.get?_append_cons_of_ne ?_ value ..).symm
    rintro rfl
    exact foreign (by cases field <;> decide)
  | recase front back same =>
    constructor
    · simp only [textField?, Value.member?, Value.object?, Option.bind_some, RecordField.key,
        Members.get?_append, Members.get?_cons_self]
      cases Members.get? "op" front with
      | none => exact congrArg some (lowercase_eq_iff.mpr same)
      | some earlier => rfl  -- a member in front has the key and is read instead
    · intro field notOp
      have differ : field.key ≠ "op" :=
        fun same => notOp (@RecordField.key_injective field .op same)
      show Members.get? field.key _ = Members.get? field.key _
      rw [Members.get?_append_cons_of_ne differ, Members.get?_append_cons_of_ne differ]

theorem Rewording.ofRecord (change : Rewording record other) :
    Operation.ofRecord record = Operation.ofRecord other := by
  have alike := change.readAlike
  have members := alike.ofMembers
  have path := alike.textField? .path nofun
  cases change <;> simp only [Operation.ofRecord, members, path]

/-- Any number of such changes, made or taken back. -/
abbrev Reworded : Value → Value → Prop := Relation.EqvGen Rewording

theorem Reworded.ofRecord (same : Reworded record other) :
    Operation.ofRecord record = Operation.ofRecord other := by
  induction same with
  | rel _ _ change => exact change.ofRecord
  | refl _ => rfl
  | symm _ _ _ ih => exact ih.symm
  | trans _ _ _ _ _ first second => exact first.trans second

theorem fits_record {level : Nat} (room : level < maxDepth)
    (fits : ∀ value ∈ operation.value?, value.Fits (level + 1)) :
    operation.record.Fits level := by
  have text (content : String) : (Value.string content).Fits (level + 1) :=
    Value.fits_scalar room rfl
  have opFirst : some "op" ≠ some reservedKey := by decide
  cases operation with
  | add path value | replace path value | test path value =>
    have distinct : ["op", "path", "value"].Nodup := by decide
    exact Value.fits_object_iff.mpr ⟨room, distinct, opFirst, by simp [text, fits value rfl]⟩
  | remove path =>
    have distinct : ["op", "path"].Nodup := by decide
    exact Value.fits_object_iff.mpr ⟨room, distinct, opFirst, by simp [text]⟩
  | move source path | copy source path =>
    have distinct : ["op", "from", "path"].Nodup := by decide
    exact Value.fits_object_iff.mpr ⟨room, distinct, opFirst, by simp [text]⟩

end Operation

namespace Patch

open Operation (Describes Malformed Reworded)

theorem fits_toValue {patch : Patch}
    (fits : ∀ operation ∈ patch, ∀ value ∈ operation.value?, value.Fits 2) :
    (toValue patch).Fits 0 := by
  refine Value.fits_array_iff.mpr ⟨by decide, fun record written => ?_⟩
  obtain ⟨operation, member, rfl⟩ := List.mem_map.mp written
  exact Operation.fits_record (by decide) (fits operation member)

theorem ofRecords_eq_ok_iff {index : Nat} {records : List Value} {patch : Patch} :
    ofRecords index records = .ok patch ↔ List.Forall₂ Describes records patch := by
  induction records generalizing index patch with
  | nil =>
    rw [List.forall₂_nil_left_iff]
    exact ⟨fun read => (Except.ok.inj read).symm, fun empty => by rw [empty, ofRecords]⟩
  | cons record rest ih =>
    rw [ofRecords, List.forall₂_cons_left_iff]
    cases read : Operation.ofRecord record with
    | error cause =>
      refine ⟨nofun, ?_⟩
      rintro ⟨operation, -, described, -⟩
      rw [Operation.ofRecord_eq_ok_iff.mpr described] at read
      contradiction
    | ok operation =>
      simp only [map_eq_ok_iff, ih]
      constructor
      · rintro ⟨later, done, rfl⟩
        exact ⟨operation, later, Operation.ofRecord_eq_ok_iff.mp read, done, rfl⟩
      · rintro ⟨other, later, described, done, rfl⟩
        rw [Operation.ofRecord_eq_ok_iff.mpr described] at read
        obtain rfl := Except.ok.inj read
        exact ⟨later, done, rfl⟩

-- By induction on the records: the first one is to blame, or all that is said of the others
-- holds one place further on.

theorem ofRecords_eq_error_iff {index : Nat} {records : List Value} {error : PatchError} :
    ofRecords index records = .error error
      ↔ ∃ front record back, records = front ++ record :: back
        ∧ (∀ earlier ∈ front, ¬ Malformed earlier) ∧ error.index = index + front.length
        ∧ Operation.ofRecord record = .error (error.pointer, error.fault) := by
  induction records generalizing index with
  | nil => simp [ofRecords]
  | cons first rest ih =>
    rw [ofRecords]
    cases read : Operation.ofRecord first with
    | error cause =>
      have refused : Malformed first := Operation.malformed_iff.mpr ⟨cause, read⟩
      constructor
      · rintro ⟨⟩
        exact ⟨[], first, rest, rfl, nofun, rfl, read⟩
      · rintro ⟨_ | ⟨head, front⟩, record, back, split, sound, place, failed⟩
        · obtain ⟨rfl, rfl⟩ := List.cons.inj split
          obtain rfl := Except.error.inj (read.symm.trans failed)
          obtain rfl : error.index = index := place
          rfl
        · obtain ⟨rfl, rfl⟩ := List.cons.inj split
          exact absurd refused (sound first List.mem_cons_self)
    | ok operation =>
      have accepted : ¬ Malformed first := Operation.not_malformed_iff.mpr ⟨operation, read⟩
      rw [map_eq_error_iff, ih]
      constructor
      · rintro ⟨front, record, back, rfl, sound, place, failed⟩
        refine ⟨first :: front, record, back, rfl,
          List.forall_mem_cons.mpr ⟨accepted, sound⟩, ?_, failed⟩
        rw [place, List.length_cons]
        omega
      · rintro ⟨_ | ⟨head, front⟩, record, back, split, sound, place, failed⟩
        · obtain ⟨rfl, rfl⟩ := List.cons.inj split
          rw [read] at failed
          contradiction
        · obtain ⟨rfl, rfl⟩ := List.cons.inj split
          refine ⟨front, record, back, rfl, (List.forall_mem_cons.mp sound).2, ?_, failed⟩
          rw [place, List.length_cons]
          omega

theorem ofRecords_reworded {records others : List Value}
    (same : List.Forall₂ Reworded records others) (index : Nat) :
    ofRecords index records = ofRecords index others := by
  induction same generalizing index with
  | nil => rfl
  | cons change _ ih => rw [ofRecords, ofRecords, change.ofRecord, ih]

theorem parse_of_parse {text : String} {document : Value} (read : Value.parse text = .ok document) :
    Patch.parse text = (ofValue document).mapError .patch := by
  rw [Patch.parse, read]

theorem fits_of_parse {text : String} {patch : Patch} (read : Patch.parse text = .ok patch) :
    ∀ operation ∈ patch, ∀ value ∈ operation.value?, value.Fits 0 := by
  intro operation member value held
  rw [Patch.parse] at read
  split at read
  · contradiction
  · next document parsed =>
    have whole := Value.fits_of_parse parsed
    cases document with
    | array records =>
      have described := ofRecords_eq_ok_iff.mp (mapError_eq_ok_iff.mp read)
      obtain ⟨record, known, describes⟩ := (exists_of_forall₂ described).2 operation member
      have inner : value ∈ record.children := Value.member_mem_children (describes.value value held)
      exact (whole.child known).child inner
    | _ => contradiction

theorem parse_written (layout : Layout) {patch : Patch}
    (fits : ∀ operation ∈ patch, ∀ value ∈ operation.value?, value.Fits 2) :
    Patch.parse (String.ofList ((toValue patch).chars layout)) = .ok patch := by
  have described : List.Forall₂ Describes (patch.map Operation.record) patch :=
    List.forall₂_map_left_iff.mpr (List.forall₂_same.mpr fun operation _ =>
      Operation.describes_record operation)
  rw [parse_of_parse (Value.parse_written layout (fits_toValue fits))]
  exact mapError_eq_ok_iff.mpr (ofRecords_eq_ok_iff.mpr described)

/-- What a patch was written as is read as that patch, if its values are such as a text can
hold inside a record. A patch document means the same, or is refused for the same reason, when
its records are reworded; the error has the place of the first record that is malformed. -/
theorem records_reread :
    (∀ (layout : Layout) (patch : Patch),
        (∀ operation ∈ patch, ∀ value ∈ operation.value?,
          value.DistinctKeys ∧ value.Unreserved ∧ value.depth ≤ 125) →
        Patch.parse (String.ofList ((toValue patch).chars layout)) = .ok patch)
      ∧ (∀ records others, List.Forall₂ Reworded records others →
        ofValue (.array records) = ofValue (.array others)
          ∧ ∀ text other, Value.parse text = .ok (.array records) →
            Value.parse other = .ok (.array others) → Patch.parse text = Patch.parse other)
      ∧ ∀ document error, ofValue document = .error error →
        (document.array? = none ∧ error.index = 0)
          ∨ ∃ front record back, document = .array (front ++ record :: back)
            ∧ error.index = front.length ∧ Malformed record
            ∧ ∀ earlier ∈ front, ¬ Malformed earlier := by
  refine ⟨?_, ?_, ?_⟩
  · intro layout patch holds
    refine parse_written layout fun operation member value held => ?_
    obtain ⟨distinct, unreserved, shallow⟩ := holds operation member value held
    -- The record and the array of records are around the value.
    have room : 2 + value.depth ≤ 127 := by omega
    exact ⟨room, distinct, unreserved⟩
  · intro records others same
    have read : ofValue (.array records) = ofValue (.array others) := ofRecords_reworded same 0
    refine ⟨read, fun text other first second => ?_⟩
    rw [parse_of_parse first, parse_of_parse second, read]
  · intro document error failed
    cases document with
    | array records =>
      obtain ⟨front, record, back, rfl, sound, place, refused⟩ := ofRecords_eq_error_iff.mp failed
      exact .inr ⟨front, record, back, rfl, place.trans (Nat.zero_add _),
        Operation.malformed_iff.mpr ⟨_, refused⟩, sound⟩
    | _ =>
      obtain rfl := Except.error.inj failed
      exact .inl ⟨rfl, rfl⟩

/-- A number with trailing zeros in front of a key, and a record that is told in another way. -/
theorem records_reread_recased :
    let held : Value := .array [.object [("é", .number ⟨true, 0, [1, 0, 0], some ⟨false, 0, [7]⟩⟩),
      (reservedKey, .null)]]
    let patch : Patch := [.move "/a" "/b", .add "/b/-" held]
    let plain : Value := .object [
      ("op", .string "remove"), ("path", .string "/a"), ("from", .null)]
    let told : Value := .object [
      ("path", .string "/a"), ("note", .null), ("op", .string "ReMoVe"), ("from", .null)]
    let broken : Value := .object [("op", .string "remove")]
    (held.DistinctKeys ∧ held.Unreserved ∧ held.depth ≤ 125)
      ∧ Patch.parse (String.ofList ((toValue patch).chars .pretty)) = .ok patch
      ∧ List.Forall₂ Reworded [plain, broken] [told, broken]
      ∧ ofValue (.array [plain, broken]) = ofValue (.array [told, broken])
      ∧ ∃ error front record back, ofValue (.array [told, broken]) = .error error
        ∧ [told, broken] = front ++ record :: back ∧ error.index = front.length
        ∧ Malformed record ∧ ∀ earlier ∈ front, ¬ Malformed earlier := by
  intro held patch plain told broken
  have distinct : held.DistinctKeys := by decide
  have unreserved : held.Unreserved := by decide
  have shallow : held.depth ≤ 125 := by decide
  have holds : ∀ operation ∈ patch, ∀ value ∈ operation.value?,
      value.DistinctKeys ∧ value.Unreserved ∧ value.depth ≤ 125 := by
    simpa [patch, Operation.value?] using ⟨distinct, unreserved, shallow⟩
  have ordered : Operation.Rewording plain (.object [
      ("path", .string "/a"), ("op", .string "remove"), ("from", .null)]) :=
    .reorder (by decide) (.swap ..)
  have extended : Operation.Rewording (.object [
      ("path", .string "/a"), ("op", .string "remove"), ("from", .null)]) (.object [
      ("path", .string "/a"), ("note", .null), ("op", .string "remove"), ("from", .null)]) :=
    .extend [("path", .string "/a")] [("op", .string "remove"), ("from", .null)] .null (by decide)
  have recased : Operation.Rewording (.object [
      ("path", .string "/a"), ("note", .null), ("op", .string "remove"), ("from", .null)]) told :=
    .recase [("path", .string "/a"), ("note", .null)] [("from", .null)] (by decide)
  have reworded : Reworded plain told :=
    (Relation.EqvGen.rel _ _ ordered).trans _ _ _
      ((Relation.EqvGen.rel _ _ extended).trans _ _ _ (.rel _ _ recased))
  have same : List.Forall₂ Reworded [plain, broken] [told, broken] :=
    .cons reworded (.cons (.refl _) .nil)
  have failed : ofValue (.array [told, broken]) = .error ⟨1, "", .missingField .path⟩ := by rfl
  obtain ⟨reread, retold, first⟩ := records_reread
  refine ⟨⟨distinct, unreserved, shallow⟩, reread .pretty patch holds, same,
    (retold _ _ same).1, ?_⟩
  obtain ⟨noArray, -⟩ | ⟨front, record, back, split, place, refused, sound⟩ := first _ _ failed
  · contradiction
  · exact ⟨_, front, record, back, failed, Value.array.inj split, place, refused, sound⟩

end Patch

end JsonTree
