import Mathlib.Data.List.Nodup
import JsonTree.Proofs.Patch.Effect
import JsonTree.Proofs.Patch.Reach
import JsonTree.Proofs.Patch.Records
import JsonTree.Proofs.Patch.Sequence
import JsonTree.Proofs.Pointer.Writing

/-! Patches keep what the keys of objects obey.

An operation leaves the keys of an object as they are, takes one away or puts a new one behind
them. So whatever outlasts this in one object outlasts a patch in the whole document, as long as
the values that the patch brings along obey it too.
-/

set_option autoImplicit false

namespace JsonTree

/-- A law of keys that outlasts removals, and additions of the keys that are allowed. -/
structure KeyLaw (allowed : String → Prop) (law : List String → Prop) : Prop where
  removed : ∀ front key back, law (front ++ key :: back) → law (front ++ back)
  added : ∀ keys key, allowed key → key ∉ keys → law keys → law (keys ++ [key])

theorem keyLaw_nodup (allowed : String → Prop) : KeyLaw allowed List.Nodup where
  removed front key back distinct := (List.nodup_middle.mp distinct).of_cons
  added keys key _ absent distinct := by
    rw [← List.concat_eq_append]
    exact distinct.concat absent

theorem keyLaw_lacks (key : String) : KeyLaw (· ≠ key) (key ∉ ·) where
  removed front other back absent := by
    rw [List.mem_append, List.mem_cons] at absent
    rw [List.mem_append]
    exact fun known => absent (known.imp_right .inr)
  added keys other differ _ absent := by
    rw [List.mem_append, List.mem_singleton]
    exact fun known => known.elim absent (differ ·.symm)

abbrev Value.Lacks (key : String) (value : Value) : Prop := value.KeysObey (key ∉ ·)

variable {allowed : String → Prop} {law : List String → Prop}

namespace Change

variable {change : Change} {token : String} {container edited document changed : Value}

def Allows (allowed : String → Prop) (token : String) : Change → Prop
  | .add _ => allowed token
  | _ => True

-- Of all that an edit can do, two things change keys: a member is put behind the others, or
-- taken from between them. The rest puts values that obey among values that do.

theorem Edits.keysObey (keeps : KeyLaw allowed law) (edits : change.Edits token container edited)
    (permitted : change.Allows allowed token) (new : ∀ value ∈ change.value?, value.KeysObey law)
    (obeys : container.KeysObey law) : edited.KeysObey law := by
  cases edits with
  | overwriteMember old added back absent | replaceMember old added back absent =>
    rw [Value.keysObey_object, List.forall_mem_append, List.forall_mem_cons] at obeys ⊢
    obtain ⟨keys, front, -, rest⟩ := obeys
    exact ⟨by simpa using keys, front, new added rfl, rest⟩
  | appendMember added absent =>
    rw [Value.keysObey_object] at obeys ⊢
    obtain ⟨keys, each⟩ := obeys
    refine ⟨?_, List.forall_mem_append.mpr ⟨each, List.forall_mem_singleton.mpr (new added rfl)⟩⟩
    rw [Members.keys_append]
    exact keeps.added _ token permitted absent keys
  | removeMember old back absent =>
    rw [Value.keysObey_object, List.forall_mem_append] at obeys ⊢
    rw [List.forall_mem_cons] at obeys
    obtain ⟨keys, front, -, rest⟩ := obeys
    rw [Members.keys_append, Members.keys_cons] at keys
    rw [Members.keys_append]
    exact ⟨keeps.removed _ _ _ keys, front, rest⟩
  | insertItem front added back =>
    rw [Value.keysObey_array, List.forall_mem_append] at obeys ⊢
    obtain ⟨none, first, rest⟩ := obeys
    exact ⟨none, first, List.forall_mem_cons.mpr ⟨new added rfl, rest⟩⟩
  | replaceItem front old added back =>
    rw [Value.keysObey_array, List.forall_mem_append, List.forall_mem_cons] at obeys ⊢
    obtain ⟨none, first, -, rest⟩ := obeys
    exact ⟨none, first, new added rfl, rest⟩
  | removeItem front old back =>
    rw [Value.keysObey_array, List.forall_mem_append] at obeys ⊢
    rw [List.forall_mem_cons] at obeys
    obtain ⟨none, first, -, rest⟩ := obeys
    exact ⟨none, first, rest⟩

theorem keysObey_applyAt (keeps : KeyLaw allowed law) {target : Pointer}
    (permitted : ∀ token ∈ target.last?, change.Allows allowed token)
    (new : ∀ value ∈ change.value?, value.KeysObey law) (obeys : document.KeysObey law)
    (applied : change.applyAt document target = .ok changed) : changed.KeysObey law := by
  rcases target.root_or_concat with rfl | ⟨parents, token, rfl⟩
  · exact new changed (applyAt_root applied)
  · obtain ⟨container, edited, found, done, rfl⟩ := applyAt_eq_ok_iff.mp applied
    have inner := (edits_of_edit done).keysObey keeps
      (permitted token (Pointer.last?_concat parents token)) new (obeys.get found)
    exact obeys.set found inner

end Change

namespace Value

variable {document new old changed remaining : Value} {target : Pointer}

theorem keysObey_addAt (keeps : KeyLaw allowed law)
    (permitted : ∀ token ∈ target.last?, allowed token) (newObeys : new.KeysObey law)
    (obeys : document.KeysObey law)
    (added : document.addAt target new = .ok changed) : changed.KeysObey law := by
  have applied : (Change.add new).applyAt document target = .ok changed := added
  refine Change.keysObey_applyAt keeps permitted ?_ obeys applied
  rintro _ ⟨⟩
  exact newObeys

theorem keysObey_replaceAt (keeps : KeyLaw allowed law) (newObeys : new.KeysObey law)
    (obeys : document.KeysObey law) (replaced : document.replaceAt target new = .ok changed) :
    changed.KeysObey law := by
  have applied : (Change.replace new).applyAt document target = .ok changed := replaced
  refine Change.keysObey_applyAt keeps ?_ ?_ obeys applied
  · exact fun _ _ => trivial
  · rintro _ ⟨⟩
    exact newObeys

theorem keysObey_removeAt (keeps : KeyLaw allowed law) (obeys : document.KeysObey law)
    (removed : document.removeAt target = .ok (old, remaining)) :
    old.KeysObey law ∧ remaining.KeysObey law := by
  have taken : target.get document = .ok old :=
    (Operation.removeAt_eq_ok_iff.mp ⟨remaining, removed⟩).1
  have applied : Change.remove.applyAt document target = .ok remaining :=
    map_eq_ok_iff.mpr ⟨_, removed, rfl⟩
  refine ⟨obeys.get taken, Change.keysObey_applyAt keeps ?_ ?_ obeys applied⟩
  · exact fun _ _ => trivial
  · exact nofun

end Value

namespace Operation

variable {operation : Operation} {document changed : Value}

def newKey? : Operation → Option String
  | .add path _ | .move _ path | .copy _ path =>
    (Pointer.parse path).toOption.bind Pointer.last?
  | _ => none

theorem readPointer_eq_ok_iff {path : String} {target : Pointer} :
    readPointer path = .ok target ↔ Pointer.parse path = .ok target :=
  mapError_eq_ok_iff

theorem placeFault_eq_ok_iff {α : Type} {pointer : String} {step : Except PatchFault α}
    {result : α} : placeFault pointer step = .ok result ↔ step = .ok result :=
  mapError_eq_ok_iff

/-- The values that are moved or copied are parts of the document and obey for that reason. -/
theorem keysObey_apply (keeps : KeyLaw allowed law)
    (permitted : ∀ key ∈ operation.newKey?, allowed key)
    (new : ∀ value ∈ operation.value?, value.KeysObey law) (obeys : document.KeysObey law)
    (applied : operation.apply document = .ok changed) : changed.KeysObey law := by
  have last {path : String} {target : Pointer} (read : Pointer.parse path = .ok target) :
      (Pointer.parse path).toOption.bind Pointer.last? = target.last? := by
    rw [read]
    rfl
  cases operation with
  | add path value =>
    simp only [apply, bind_eq_ok_iff, readPointer_eq_ok_iff, placeFault_eq_ok_iff] at applied
    obtain ⟨target, read, added⟩ := applied
    rw [newKey?, last read] at permitted
    exact Value.keysObey_addAt keeps permitted (new value rfl) obeys added
  | remove path =>
    simp only [apply, bind_eq_ok_iff, readPointer_eq_ok_iff, placeFault_eq_ok_iff] at applied
    obtain ⟨target, read, ⟨old, remaining⟩, removed, ⟨⟩⟩ := applied
    exact (Value.keysObey_removeAt keeps obeys removed).2
  | replace path value =>
    simp only [apply, bind_eq_ok_iff, readPointer_eq_ok_iff, placeFault_eq_ok_iff] at applied
    obtain ⟨target, read, replaced⟩ := applied
    exact Value.keysObey_replaceAt keeps (new value rfl) obeys replaced
  | move source path =>
    simp only [apply, bind_eq_ok_iff, readPointer_eq_ok_iff, placeFault_eq_ok_iff] at applied
    obtain ⟨origin, -, target, read, ⟨value, remaining⟩, removed, added⟩ := applied
    obtain ⟨valueObeys, remainingObeys⟩ := Value.keysObey_removeAt keeps obeys removed
    rw [newKey?, last read] at permitted
    exact Value.keysObey_addAt keeps permitted valueObeys remainingObeys added
  | copy source path =>
    simp only [apply, bind_eq_ok_iff, readPointer_eq_ok_iff, placeFault_eq_ok_iff, Value.locate,
      mapError_eq_ok_iff] at applied
    obtain ⟨origin, -, target, read, value, found, added⟩ := applied
    rw [newKey?, last read] at permitted
    exact Value.keysObey_addAt keeps permitted (obeys.get found) obeys added
  | test path value =>
    simp only [apply, bind_eq_ok_iff] at applied
    obtain ⟨target, -, actual, -, kept⟩ := applied
    split at kept
    · exact Except.ok.inj kept ▸ obeys
    · contradiction

structure Lacks (key : String) (operation : Operation) : Prop where
  value : ∀ value ∈ operation.value?, value.Lacks key
  newKey : operation.newKey? ≠ some key

end Operation

namespace Patch

theorem keysObey_apply (keeps : KeyLaw allowed law) {patch : Patch} {document changed : Value}
    (permitted : ∀ operation ∈ patch, ∀ key ∈ operation.newKey?, allowed key)
    (new : ∀ operation ∈ patch, ∀ value ∈ operation.value?, value.KeysObey law)
    (obeys : document.KeysObey law) (applied : apply patch document = .ok changed) :
    changed.KeysObey law := by
  -- Every operation starts from a document that obeys, as the one before has left it.
  induction patch generalizing document with
  | nil => exact Except.ok.inj applied ▸ obeys
  | cons operation rest ih =>
    obtain ⟨firstPermitted, restPermitted⟩ := List.forall_mem_cons.mp permitted
    obtain ⟨firstNew, restNew⟩ := List.forall_mem_cons.mp new
    rw [apply_cons, apply_single, bind_eq_ok_iff] at applied
    obtain ⟨between, first, later⟩ := applied
    have step := Operation.keysObey_apply keeps firstPermitted firstNew obeys
      (mapError_eq_ok_iff.mp first)
    exact ih restPermitted restNew step (mapError_eq_ok_iff.mp later)

theorem lacks_apply {key : String} {patch : Patch} {document changed : Value}
    (each : ∀ operation ∈ patch, operation.Lacks key) (lacks : document.Lacks key)
    (applied : apply patch document = .ok changed) : changed.Lacks key := by
  refine keysObey_apply (keyLaw_lacks key) ?_
    (fun operation member => (each operation member).value)
    lacks applied
  rintro operation member _ named rfl
  exact (each operation member).newKey named

theorem distinctKeys_apply {patch : Patch} {document changed : Value}
    (new : ∀ operation ∈ patch, ∀ value ∈ operation.value?, value.DistinctKeys)
    (distinct : document.DistinctKeys) (applied : apply patch document = .ok changed) :
    changed.DistinctKeys :=
  keysObey_apply (keyLaw_nodup fun _ => True) (fun _ _ _ _ => trivial) new distinct applied

end Patch

end JsonTree
