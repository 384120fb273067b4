import JsonTree.Patch.Error
import JsonTree.Patch.Operation
import JsonTree.Value.Equality

/-! Applying patches.

An operation walks to the container that its pointer ends in and changes it there. The
walk is not the one that lookups take: it goes through what it will change, and comes back
with a way to put the changed container in place. The document it starts from is a value
and stays as it is, so a patch that fails half way leaves nothing behind.
-/

set_option autoImplicit false

namespace JsonTree

namespace Value

def addMember (container : Value) (token : String) (new : Value) : Except PatchFault Value :=
  match container with
  | .object members => .ok (.object (Members.put token new members))
  | .array items =>
    match ArrayPlace.ofToken token with
    | .ok .append => .ok (.array (items ++ [new]))
    | .ok (.index index) =>
      if index ≤ items.length then .ok (.array (items.insertIdx index new))
      else .error .indexOutOfRange
    | .error error => .error (.ofLookup error)
  | scalar => .error (.typeMismatch (.addTo scalar.kind))

/-- Take a member or an item out of a container: what is taken, and what is left. -/
def removeMember (container : Value) (token : String) : Except PatchFault (Value × Value) :=
  match container with
  | .object members =>
    match Members.get? token members with
    | some old => .ok (old, .object (Members.erase token members))
    | none => .error .pathNotFound
  | .array items =>
    match existingIndex token items.length with
    | .ok index =>
      match items[index]? with
      | some old => .ok (old, .array (items.eraseIdx index))
      | none => .error .indexOutOfRange
    | .error error => .error (.ofLookup error)
  | scalar => .error (.typeMismatch (.removeFrom scalar.kind))

def replaceMember (container : Value) (token : String) (new : Value) : Except PatchFault Value :=
  match container with
  | .object members =>
    if (Members.get? token members).isSome then .ok (.object (Members.put token new members))
    else .error .pathNotFound
  | .array items =>
    match existingIndex token items.length with
    | .ok index => .ok (.array (items.set index new))
    | .error error => .error (.ofLookup error)
  | scalar => .error (.typeMismatch (.replaceIn scalar.kind))

/-- A place in a document that can be changed: what is there, and the document with
something else in its place. -/
structure Slot where
  content : Value
  fill : Value → Value

/-- Walk down to a value that is to be changed. Each container on the way takes in what
becomes of the value that was walked through. -/
def navigate : Value → List String → Except LookupError Slot
  | value, [] => .ok ⟨value, id⟩
  | .object members, token :: rest =>
    match Members.get? token members with
    | some member => do
      let slot ← member.navigate rest
      pure ⟨slot.content, fun new => .object (Members.put token (slot.fill new) members)⟩
    | none => .error .pathNotFound
  | .array items, token :: rest =>
    match inside : existingIndex token items.length with
    | .ok index => do
      let slot ← (items.get ⟨index, existingIndex_lt inside⟩).navigate rest
      pure ⟨slot.content, fun new => .array (items.set index (slot.fill new))⟩
    | .error error => .error error
  | scalar, _ :: _ => .error (.typeMismatch scalar.kind)

theorem navigate_cons (value : Value) (token : String) (rest : List String) :
    value.navigate (token :: rest) = (do
      let inner ← value.child token
      let slot ← inner.navigate rest
      pure ⟨slot.content, fun new => value.setChild token (slot.fill new)⟩) := by
  cases value with
  | object members =>
    simp only [navigate, child, setChild]
    cases Members.get? token members <;> rfl
  | array items =>
    simp only [navigate, child, setChild]
    split
    · next index inside =>
      simp only [inside, List.getElem?_eq_getElem (existingIndex_lt inside)]
      rfl
    · next error outside =>
      simp only [outside]
      rfl
  | _ => rfl

/-- The walk of a change agrees with lookups: it finds what they find, fails as they fail,
and fills the place that they read. -/
theorem navigate_eq (document : Value) (tokens : List String) :
    document.navigate tokens
      = (document.get tokens).map fun found => ⟨found, document.set tokens⟩ := by
  induction tokens generalizing document with
  | nil => simp only [navigate, get]; rfl
  | cons token rest ih =>
    simp only [navigate_cons, get, set]
    cases document.child token with
    | error error => rfl
    | ok inner =>
      simp only [ih, bind, Except.bind]
      cases inner.get rest <;> rfl

/-- The value that a pointer leads to, for an operation that reads it there. -/
def locate (document : Value) (tokens : List String) : Except PatchFault Value :=
  (document.get tokens).mapError .ofLookup

def enter (document : Value) (parents : List String) : Except PatchFault Slot :=
  (document.navigate parents).mapError .ofLookup

/-- To change a container is to find it and to write what it becomes in its place. -/
theorem enter_bind {α : Type} (document : Value) (parents : List String)
    (change : Slot → Except PatchFault α) :
    document.enter parents >>= change
      = document.locate parents >>= fun container => change ⟨container, document.set parents⟩ := by
  rw [enter, locate, navigate_eq]
  cases document.get parents <;> rfl

-- The three changes differ in what they do to the container. Reaching it and putting it
-- back is the same for all, and only the last token needs no value to be there.

/-- Insert a value, or overwrite a member. At the root it becomes the document. -/
def addAt (document : Value) (target : Pointer) (new : Value) : Except PatchFault Value :=
  match target.last? with
  | none => .ok new
  | some token => do
    let slot ← document.enter target.tokens.dropLast
    let changed ← slot.content.addMember token new
    pure (slot.fill changed)

def removeAt (document : Value) (target : Pointer) : Except PatchFault (Value × Value) :=
  match target.last? with
  | none => .error (.typeMismatch .removeRoot)
  | some token => do
    let slot ← document.enter target.tokens.dropLast
    let (old, changed) ← slot.content.removeMember token
    pure (old, slot.fill changed)

/-- Overwrite a value that is there. At the root the new value becomes the document. -/
def replaceAt (document : Value) (target : Pointer) (new : Value) : Except PatchFault Value :=
  match target.last? with
  | none => .ok new
  | some token => do
    let slot ← document.enter target.tokens.dropLast
    let changed ← slot.content.replaceMember token new
    pure (slot.fill changed)

end Value

structure PlacedFault where
  pointer : String
  fault : PatchFault
  deriving DecidableEq, Repr

namespace Operation

def readPointer (text : String) : Except PlacedFault Pointer :=
  (Pointer.parse text).mapError fun error =>
    ⟨text, .invalidPointer error.position error.fault⟩

def placeFault {α : Type} (pointer : String) (step : Except PatchFault α) : Except PlacedFault α :=
  step.mapError fun fault => ⟨pointer, fault⟩

/-- Apply one operation. Both pointers of a move or a copy are read before the
document is looked at. -/
def apply (operation : Operation) (document : Value) : Except PlacedFault Value :=
  match operation with
  | .add path value => do
    let target ← readPointer path
    placeFault path (document.addAt target value)
  | .remove path => do
    let target ← readPointer path
    let (_, changed) ← placeFault path (document.removeAt target)
    pure changed
  | .replace path value => do
    let target ← readPointer path
    placeFault path (document.replaceAt target value)
  | .move source path => do
    let origin ← readPointer source
    let target ← readPointer path
    let (value, remaining) ← placeFault source (document.removeAt origin)
    placeFault path (remaining.addAt target value)
  | .copy source path => do
    let origin ← readPointer source
    let target ← readPointer path
    let value ← placeFault source (document.locate origin.tokens)
    placeFault path (document.addAt target value)
  | .test path value => do
    let target ← readPointer path
    let actual ← placeFault path (document.locate target.tokens)
    if actual.equals .ordered value then pure document else .error ⟨path, .testFailed⟩

end Operation

namespace Patch

def applyFrom (index : Nat) : List Operation → Value → Except PatchError Value
  | [], document => .ok document
  | operation :: rest, document =>
    match operation.apply document with
    | .ok changed => applyFrom (index + 1) rest changed
    | .error failure => .error ⟨index, failure.pointer, failure.fault⟩

/-- Apply all operations, or report the first that fails. -/
def apply (patch : List Operation) (document : Value) : Except PatchError Value :=
  applyFrom 0 patch document

/-- The documents after each operation, applied by itself to the one before, up to the
first that fails. -/
def stages : List Operation → Value → List (Except PatchError Value)
  | [], _ => []
  | operation :: rest, document =>
    match apply [operation] document with
    | .ok changed => .ok changed :: stages rest changed
    | .error error => [.error error]

end Patch

end JsonTree
