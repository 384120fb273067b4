import JsonTree.Patch.Apply
import JsonTree.Proofs.Pointer.Frame
import JsonTree.Proofs.Value.Members

/-! The three operations that change what is at one pointer.

Each reaches the container that the pointer ends in, edits it there and writes it back.
What an edit does to a container is a matter of lists; what it means for other pointers
follows from that and from what a write leaves alone.
-/

set_option autoImplicit false

namespace JsonTree

inductive Change where
  | add (value : Value)
  | replace (value : Value)
  | remove

namespace Change

def operation (path : String) : Change → Operation
  | .add value => .add path value
  | .replace value => .replace path value
  | .remove => .remove path

def value? : Change → Option Value
  | .add value => some value
  | .replace value => some value
  | .remove => none

def edit (change : Change) (container : Value) (token : String) : Except PatchFault Value :=
  match change with
  | .add value => container.addMember token value
  | .replace value => container.replaceMember token value
  | .remove => (container.removeMember token).map Prod.snd

def applyAt (change : Change) (document : Value) (target : Pointer) : Except PatchFault Value :=
  match change with
  | .add value => document.addAt target value
  | .replace value => document.replaceAt target value
  | .remove => (document.removeAt target).map Prod.snd

theorem apply_operation {change : Change} {path : String} {target : Pointer}
    (parsed : Pointer.parse path = .ok target) (document : Value) :
    (change.operation path).apply document
      = Operation.placeFault path (change.applyAt document target) := by
  have read : Operation.readPointer path = .ok target := by rw [Operation.readPointer, parsed]; rfl
  cases change with
  | add value => simp only [operation, Operation.apply, read]; rfl
  | replace value => simp only [operation, Operation.apply, read]; rfl
  | remove =>
    simp only [operation, Operation.apply, read, applyAt, bind, Except.bind]
    cases document.removeAt target <;> rfl

theorem apply_single_iff {change : Change} {path : String} {target : Pointer}
    (parsed : Pointer.parse path = .ok target) {document changed : Value} :
    Patch.apply [change.operation path] document = .ok changed
      ↔ change.applyAt document target = .ok changed := by
  simp only [Patch.apply, Patch.applyFrom, apply_operation parsed, Operation.placeFault]
  cases change.applyAt document target <;> simp [Except.mapError]

theorem applyAt_root {change : Change} {document changed : Value}
    (applied : change.applyAt document .root = .ok changed) : change.value? = some changed := by
  cases change with
  | add value => exact congrArg some (Except.ok.inj applied)
  | replace value => exact congrArg some (Except.ok.inj applied)
  | remove => contradiction

/-- A change below the root is an edit of the container that the pointer ends in. -/
theorem applyAt_eq (change : Change) (document : Value) (parents : List String) (token : String) :
    change.applyAt document ⟨parents ++ [token]⟩ = (do
      let container ← document.locate parents
      let edited ← change.edit container token
      pure (document.set parents edited)) := by
  have last : Pointer.last? ⟨parents ++ [token]⟩ = some token := List.getLast?_concat ..
  have front : (parents ++ [token]).dropLast = parents := List.dropLast_concat ..
  cases change with
  | add value => simp only [applyAt, Value.addAt, last, front, edit, Value.enter_bind]
  | replace value => simp only [applyAt, Value.replaceAt, last, front, edit, Value.enter_bind]
  | remove =>
    simp only [applyAt, Value.removeAt, last, front, edit, Value.enter_bind]
    cases document.locate parents with
    | error fault => rfl
    | ok container =>
      simp only [bind, Except.bind]
      cases container.removeMember token <;> rfl

theorem applyAt_eq_ok_iff {change : Change} {document changed : Value} {parents : List String}
    {token : String} :
    change.applyAt document ⟨parents ++ [token]⟩ = .ok changed
      ↔ ∃ container edited, document.get parents = .ok container
        ∧ change.edit container token = .ok edited ∧ document.set parents edited = changed := by
  rw [applyAt_eq, Value.locate]
  cases document.get parents with
  | error error => simp [Except.mapError, bind, Except.bind]
  | ok container =>
    simp only [Except.mapError, bind, Except.bind, Except.ok.injEq, pure, Except.pure]
    cases edited : change.edit container token <;> simp [edited]

end Change

end JsonTree
