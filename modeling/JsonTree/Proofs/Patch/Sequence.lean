import JsonTree.Proofs.Outcome
import JsonTree.Proofs.Patch.Reach

/-! A patch is the sequence of its operations, and its error is that of one of them.

Applying a patch composes what its operations do. It fails as the first operation does that
fails on what those in front of it have made of the document, and what that operation reports
is about one of its own pointers. All pointers of an operation are read before the document,
so a text that is none is reported whatever the document is.
-/

set_option autoImplicit false

namespace JsonTree

def PatchError.behind (count : Nat) (error : PatchError) : PatchError :=
  { error with index := count + error.index }

namespace Patch

theorem applyFrom_behind (patch : List Operation) (document : Value) (count index : Nat) :
    applyFrom (count + index) patch document
      = (applyFrom index patch document).mapError (.behind count) := by
  induction patch generalizing document index with
  | nil => rfl
  | cons operation rest ih =>
    rw [applyFrom, applyFrom]
    cases operation.apply document with
    | ok changed => exact ih changed (index + 1)
    | error failure => rfl

theorem applyFrom_append (front back : List Operation) (document : Value) (index : Nat) :
    applyFrom index (front ++ back) document
      = applyFrom index front document >>= applyFrom (index + front.length) back := by
  induction front generalizing document index with
  | nil => rfl
  | cons operation rest ih =>
    rw [List.cons_append, applyFrom, applyFrom, List.length_cons]
    cases operation.apply document with
    | ok changed =>
      have place : index + (rest.length + 1) = index + 1 + rest.length := by omega
      rw [place]
      exact ih changed (index + 1)
    | error failure => rfl

/-- The second part is applied to what the first part makes of the document, and its errors
count the operations of the first. -/
theorem apply_append (front back : List Operation) (document : Value) :
    apply (front ++ back) document = apply front document >>= fun between =>
      (apply back between).mapError (.behind front.length) := by
  have later (between : Value) :
      applyFrom (0 + front.length) back between
        = (apply back between).mapError (.behind front.length) := by
    rw [Nat.zero_add]
    exact applyFrom_behind back between front.length 0
  rw [apply, applyFrom_append, funext later]
  rfl

theorem apply_append_of_ok {front : List Operation} {document between : Value}
    (done : apply front document = .ok between) (back : List Operation) :
    apply (front ++ back) document = (apply back between).mapError (.behind front.length) := by
  rw [apply_append, done]
  rfl

theorem apply_single (operation : Operation) (document : Value) :
    apply [operation] document
      = (operation.apply document).mapError fun failure => ⟨0, failure.pointer, failure.fault⟩ := by
  rw [apply, applyFrom]
  cases operation.apply document <;> rfl

theorem apply_single_eq_error_iff {operation : Operation} {document : Value} {pointer : String}
    {fault : PatchFault} :
    apply [operation] document = .error ⟨0, pointer, fault⟩
      ↔ operation.apply document = .error ⟨pointer, fault⟩ := by
  rw [apply_single, mapError_eq_error_iff]
  constructor
  · rintro ⟨cause, failed, same⟩
    obtain ⟨-, rfl, rfl⟩ := PatchError.mk.inj same
    exact failed
  · exact fun failed => ⟨_, failed, rfl⟩

theorem apply_cons (operation : Operation) (rest : List Operation) (document : Value) :
    apply (operation :: rest) document = apply [operation] document >>= fun between =>
      (apply rest between).mapError (.behind 1) :=
  apply_append [operation] rest document

theorem apply_pair_eq_ok_iff {first second : Operation} {document changed : Value} :
    apply [first, second] document = .ok changed
      ↔ ∃ between, apply [first] document = .ok between
        ∧ apply [second] between = .ok changed := by
  simp only [apply_cons first [second], bind_eq_ok_iff, mapError_eq_ok_iff]

/-- The operation at the index of an error fails by itself, on what those in front of it
have made of the document. -/
structure Blames (patch : List Operation) (document : Value) (error : PatchError) : Prop where
  inside : error.index < patch.length
  fails : ∃ before, apply (patch.take error.index) document = .ok before
    ∧ apply [patch[error.index]] before = .error { error with index := 0 }

theorem blames_iff {patch : List Operation} {document : Value} {error : PatchError} :
    Blames patch document error
      ↔ ∃ front operation back before, patch = front ++ operation :: back
        ∧ front.length = error.index ∧ apply front document = .ok before
        ∧ operation.apply before = .error ⟨error.pointer, error.fault⟩ := by
  constructor
  · rintro ⟨inside, before, done, failed⟩
    exact ⟨_, _, patch.drop (error.index + 1), before, by simp, by simp; omega, done,
      apply_single_eq_error_iff.mp failed⟩
  · rintro ⟨front, operation, back, before, rfl, place, done, failed⟩
    refine ⟨by simp [← place], before, ?_, ?_⟩
    · rw [← place, List.take_left' rfl]
      exact done
    · simpa [← place, apply_single_eq_error_iff] using failed

/-- A patch fails just when one of its operations does, after all in front of it succeeded. -/
theorem apply_eq_error_iff {patch : List Operation} {document : Value} {error : PatchError} :
    apply patch document = .error error ↔ Blames patch document error := by
  rw [blames_iff]
  constructor
  · intro failed
    -- The error of the rest is counted one place further on than the rest counts it.
    induction patch generalizing document error with
    | nil => contradiction
    | cons operation rest ih =>
      rw [apply_cons, apply_single, bind_eq_error_iff] at failed
      rcases failed with first | ⟨between, led, later⟩
      · obtain ⟨failure, alone, rfl⟩ := mapError_eq_error_iff.mp first
        exact ⟨[], operation, rest, document, rfl, rfl, rfl, alone⟩
      · obtain ⟨further, behind, rfl⟩ := mapError_eq_error_iff.mp later
        obtain ⟨front, culprit, back, before, rfl, place, done, alone⟩ := ih behind
        refine ⟨operation :: front, culprit, back, before, rfl, ?_, ?_, alone⟩
        · rw [List.length_cons, place, Nat.add_comm]
          rfl
        · rw [apply_cons, apply_single, led]
          simp [bind, Except.bind, done, Except.mapError]
  · rintro ⟨front, operation, back, before, rfl, place, done, alone⟩
    rw [apply_append_of_ok done, apply_cons, apply_single, alone]
    simp [bind, Except.bind, Except.mapError, PatchError.behind, place]

end Patch

/-- What can be wrong with a document for an operation. The other faults are those of a
pointer's text and of a patch document. -/
def PatchFault.OfDocument : PatchFault → Prop
  | .pathNotFound | .indexOutOfRange | .typeMismatch _ | .testFailed => True
  | .invalidPointer .. | .unknownOperation _ | .missingField _ => False

open PatchFault (OfDocument)

theorem ofDocument_ofLookup (error : LookupError) : OfDocument (.ofLookup error) := by
  cases error <;> trivial

theorem lookup_failsWith {α : Type} (lookup : Except LookupError α) :
    FailsWith OfDocument (lookup.mapError .ofLookup) := by
  have any : FailsWith (fun _ => True) lookup := fun _ _ => trivial
  exact any.mapError fun error _ => ofDocument_ofLookup error

namespace Value

variable (document container new : Value) (tokens : List String) (token : String)
  (target : Pointer)

theorem locate_failsWith : FailsWith OfDocument (document.locate tokens) :=
  lookup_failsWith (document.get tokens)

theorem enter_failsWith : FailsWith OfDocument (document.enter tokens) :=
  lookup_failsWith (document.navigate tokens)

theorem addMember_failsWith : FailsWith OfDocument (container.addMember token new) := by
  unfold addMember
  split
  · exact .ok _ _
  · split
    · exact .ok _ _
    · split
      · exact .ok _ _
      · exact .error trivial
    · exact .error (ofDocument_ofLookup _)
  · exact .error trivial

theorem removeMember_failsWith : FailsWith OfDocument (container.removeMember token) := by
  unfold removeMember
  split
  · split
    · exact .ok _ _
    · exact .error trivial
  · split
    · split
      · exact .ok _ _
      · exact .error trivial
    · exact .error (ofDocument_ofLookup _)
  · exact .error trivial

theorem replaceMember_failsWith : FailsWith OfDocument (container.replaceMember token new) := by
  unfold replaceMember
  split
  · split
    · exact .ok _ _
    · exact .error trivial
  · split
    · exact .ok _ _
    · exact .error (ofDocument_ofLookup _)
  · exact .error trivial

theorem addAt_failsWith : FailsWith OfDocument (document.addAt target new) := by
  unfold addAt
  split
  · exact .ok _ _
  · exact (enter_failsWith _ _).bind fun slot =>
      (addMember_failsWith slot.content new _).bind fun _ => .ok _ _

theorem removeAt_failsWith : FailsWith OfDocument (document.removeAt target) := by
  unfold removeAt
  split
  · exact .error trivial
  · exact (enter_failsWith _ _).bind fun slot =>
      (removeMember_failsWith slot.content _).bind fun _ => .ok _ _

theorem replaceAt_failsWith : FailsWith OfDocument (document.replaceAt target new) := by
  unfold replaceAt
  split
  · exact .ok _ _
  · exact (enter_failsWith _ _).bind fun slot =>
      (replaceMember_failsWith slot.content new _).bind fun _ => .ok _ _

end Value

/-- The first of some texts that is no pointer, by what is wrong with it. -/
inductive Pointer.FirstUnreadable : List String → SyntaxError → Prop where
  | here {error : SyntaxError} (rest : List String) : parse error.pointer = .error error →
      FirstUnreadable (error.pointer :: rest) error
  | later {text : String} {pointer : Pointer} {rest : List String} {error : SyntaxError} :
      parse text = .ok pointer → FirstUnreadable rest error → FirstUnreadable (text :: rest) error

theorem Pointer.FirstUnreadable.mem {texts : List String} {error : SyntaxError}
    (first : FirstUnreadable texts error) : error.pointer ∈ texts := by
  induction first with
  | here => exact List.mem_cons_self
  | later _ _ ih => exact List.mem_cons_of_mem _ ih

theorem Pointer.pointer_of_parse {text : String} {error : SyntaxError}
    (failed : parse text = .error error) : error.pointer = text := by
  unfold parse at failed
  split at failed
  · contradiction
  · split at failed
    · contradiction
    · obtain rfl := Except.error.inj failed
      rfl
  · obtain rfl := Except.error.inj failed
    rfl

def PlacedFault.ofSyntax (error : Pointer.SyntaxError) : PlacedFault :=
  ⟨error.pointer, .invalidPointer error.position error.fault⟩

theorem PlacedFault.ofSyntax_inj {first second : Pointer.SyntaxError}
    (same : ofSyntax first = ofSyntax second) : first = second := by
  cases first
  cases second
  simpa [ofSyntax] using same

open Pointer (FirstUnreadable)

/-- A run over documents that reads pointers first: from an unreadable one it fails with that,
whatever the document is, and from all others as the document makes it. -/
structure Reads (texts : List String) (sort : PlacedFault → Prop)
    (run : Value → Except PlacedFault Value) : Prop where
  unread : ∀ error, FirstUnreadable texts error →
    ∀ document, run document = .error (.ofSyntax error)
  failed : ∀ document failure, run document = .error failure →
    (∃ error, FirstUnreadable texts error ∧ failure = .ofSyntax error) ∨ sort failure

section

variable {texts : List String} {sort : PlacedFault → Prop}

theorem Reads.nothing {run : Value → Except PlacedFault Value}
    (fails : ∀ document, FailsWith sort (run document)) : Reads [] sort run where
  unread := nofun
  failed document failure same := .inr (fails document failure same)

theorem Reads.pointer (text : String) {run : Pointer → Value → Except PlacedFault Value}
    (reads : ∀ pointer, Reads texts sort (run pointer)) :
    Reads (text :: texts) sort fun document =>
      Operation.readPointer text >>= fun pointer => run pointer document where
  unread := by
    intro error first document
    cases first with
    | here _ parsed =>
      rw [Operation.readPointer, parsed]
      rfl
    | later parsed first =>
      rw [Operation.readPointer_ok parsed]
      exact (reads _).unread error first document
  failed := by
    intro document failure same
    rcases bind_eq_error_iff.mp same with unread | ⟨pointer, read, later⟩
    · obtain ⟨error, parsed, rfl⟩ := mapError_eq_error_iff.mp unread
      obtain rfl := Pointer.pointer_of_parse parsed
      exact .inl ⟨error, .here _ parsed, rfl⟩
    · have parsed := mapError_eq_ok_iff.mp read
      refine ((reads pointer).failed document failure later).imp_left ?_
      rintro ⟨error, first, rfl⟩
      exact ⟨error, .later parsed first, rfl⟩

end

namespace Operation

def pointers (operation : Operation) : List String :=
  operation.source?.toList ++ [operation.path]

def FaultAt (texts : List String) (failure : PlacedFault) : Prop :=
  failure.pointer ∈ texts ∧ OfDocument failure.fault

theorem placeFault_failsWith {α : Type} {texts : List String} {path : String}
    {step : Except PatchFault α} (member : path ∈ texts) (fails : FailsWith OfDocument step) :
    FailsWith (FaultAt texts) (placeFault path step) :=
  fails.mapError fun _ fault => ⟨member, fault⟩

/-- Of two pointers the source comes first, both in reading and in what is done with them. -/
theorem apply_reads (operation : Operation) :
    Reads operation.pointers (FaultAt operation.pointers) operation.apply := by
  cases operation with
  | add path value =>
    refine .pointer path fun target => .nothing fun document => ?_
    exact placeFault_failsWith (.head _) (document.addAt_failsWith value target)
  | remove path =>
    refine .pointer path fun target => .nothing fun document => ?_
    exact (placeFault_failsWith (.head _) (document.removeAt_failsWith target)).bind
      fun _ => .ok _ _
  | replace path value =>
    refine .pointer path fun target => .nothing fun document => ?_
    exact placeFault_failsWith (.head _) (document.replaceAt_failsWith value target)
  | move source path =>
    refine .pointer source fun origin => .pointer path fun target => .nothing fun document => ?_
    -- When the addition fails, the document without the value is dropped.
    exact (placeFault_failsWith (.head _) (document.removeAt_failsWith origin)).bind fun taken =>
      placeFault_failsWith (.tail _ (.head _)) (taken.2.addAt_failsWith taken.1 target)
  | copy source path =>
    refine .pointer source fun origin => .pointer path fun target => .nothing fun document => ?_
    exact (placeFault_failsWith (.head _) (document.locate_failsWith origin.tokens)).bind
      fun found => placeFault_failsWith (.tail _ (.head _)) (document.addAt_failsWith found target)
  | test path value =>
    refine .pointer path fun target => .nothing fun document => ?_
    refine (placeFault_failsWith (.head _) (document.locate_failsWith target.tokens)).bind
      fun actual => ?_
    split
    · exact .ok _ _
    · exact .error ⟨.head _, trivial⟩

variable {operation : Operation} {document : Value}

theorem fault_of_apply {failure : PlacedFault}
    (failed : operation.apply document = .error failure) :
    failure.pointer ∈ operation.pointers ∧ (∀ name, failure.fault ≠ .unknownOperation name)
      ∧ ∀ field, failure.fault ≠ .missingField field := by
  rcases operation.apply_reads.failed document failure failed with
    ⟨error, first, rfl⟩ | ⟨place, sort⟩
  · exact ⟨first.mem, nofun, nofun⟩
  · refine ⟨place, fun name same => ?_, fun field same => ?_⟩ <;>
      · rw [same] at sort
        exact sort

theorem apply_eq_syntax_iff {error : Pointer.SyntaxError} :
    operation.apply document = .error (.ofSyntax error)
      ↔ FirstUnreadable operation.pointers error := by
  constructor
  · intro failed
    rcases operation.apply_reads.failed document _ failed with ⟨other, first, same⟩ | ⟨-, sort⟩
    · exact PlacedFault.ofSyntax_inj same ▸ first
    · exact sort.elim
  · exact fun first => operation.apply_reads.unread error first document

end Operation

namespace Patch

/-- A patch in two parts is applied part by part. It fails just when an operation does on what
those in front of it made of the document, with that operation's own error, about one of its
pointers; and with a syntax error just when one of them has one, the source of a move or copy
before its path, whatever the document is. -/
theorem applied_in_sequence :
    (∀ front back document, apply (front ++ back) document = apply front document >>=
        fun between => (apply back between).mapError (.behind front.length))
      ∧ (∀ patch document error, apply patch document = .error error ↔ Blames patch document error)
      ∧ (∀ patch document error, apply patch document = .error error →
          ∃ operation, patch[error.index]? = some operation ∧ error.pointer ∈ operation.pointers
            ∧ (∀ name, error.fault ≠ .unknownOperation name)
            ∧ ∀ field, error.fault ≠ .missingField field)
      ∧ ∀ (operation : Operation) (document : Value) (error : Pointer.SyntaxError),
        apply [operation] document
            = .error ⟨0, error.pointer, .invalidPointer error.position error.fault⟩
          ↔ FirstUnreadable operation.pointers error := by
  refine ⟨apply_append, fun _ _ _ => apply_eq_error_iff, ?_, ?_⟩
  · intro patch document error failed
    obtain ⟨front, operation, back, before, rfl, place, -, alone⟩ :=
      blames_iff.mp (apply_eq_error_iff.mp failed)
    exact ⟨operation, by simp [← place], Operation.fault_of_apply alone⟩
  · intro operation document error
    rw [apply_single_eq_error_iff]
    exact Operation.apply_eq_syntax_iff

/-- A move finds nothing where an earlier operation has taken the only item out. -/
theorem applied_in_sequence_move :
    let patch : List Operation := [.remove "/a/0", .move "/a/0" "/b", .test "/b" .null]
    let document : Value := .object [("a", .array [.null])]
    let error : PatchError := ⟨1, "/a/0", .indexOutOfRange⟩
    apply patch document = .error error ∧ Blames patch document error
      ∧ error.pointer ∈ (Operation.move "/a/0" "/b").pointers := by
  intro patch document error
  have failed : apply patch document = .error error := by rfl
  obtain ⟨-, blames, about, -⟩ := applied_in_sequence
  obtain ⟨operation, place, pointer, -⟩ := about patch document error failed
  obtain rfl := Option.some.inj place
  exact ⟨failed, (blames patch document error).mp failed, pointer⟩

end Patch

end JsonTree
