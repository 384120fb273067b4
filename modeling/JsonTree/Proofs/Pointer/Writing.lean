import JsonTree.Proofs.Pointer.Frame
import JsonTree.Proofs.Value.Everywhere

/-! Writing obeys the laws of a field.

The last of two writes at one place stays, and writing what is read there changes nothing.
Writes at two places of which neither is on the way to the other may be exchanged. All of this
holds exactly: a write keeps the places of members and items.
-/

set_option autoImplicit false

namespace JsonTree

namespace Value

inductive Holds (token : String) (inner : Value) : Value → Prop where
  | member {front : Members} (back : Members) : token ∉ Members.keys front →
      Holds token inner (.object (front ++ (token, inner) :: back))
  | item (front back : List Value) : ArrayPlace.ofToken token = .ok (.index front.length) →
      Holds token inner (.array (front ++ inner :: back))

theorem existingIndex_inside {token : String} (front back : List Value) (middle : Value)
    (named : ArrayPlace.ofToken token = .ok (.index front.length)) :
    existingIndex token (front ++ middle :: back).length = .ok front.length :=
  existingIndex_eq_ok_iff.mpr ⟨named, by simp⟩

theorem child_eq_ok_iff {value inner : Value} {token : String} :
    value.child token = .ok inner ↔ Holds token inner value := by
  constructor
  · intro found
    cases value with
    | object members =>
      simp only [child] at found
      split at found
      · next held =>
        obtain rfl := Except.ok.inj found
        obtain ⟨front, back, rfl, absent⟩ := Members.split_of_get? held
        exact .member back absent
      · contradiction
    | array items =>
      simp only [child] at found
      split at found
      · next index place =>
        obtain ⟨named, inside⟩ := existingIndex_eq_ok_iff.mp place
        rw [List.getElem?_eq_getElem inside] at found
        obtain rfl := Except.ok.inj found
        -- The item stands between those before its index and those behind it.
        have length : (items.take index).length = index := by simp; omega
        have holds : Holds token items[index] (.array (items.take index ++ items[index]
            :: items.drop (index + 1))) := .item _ _ (by rw [length]; exact named)
        simpa using holds
      · contradiction
    | _ => contradiction
  · intro holds
    cases holds with
    | member back absent =>
      simp only [child, Members.get?_append_of_not_mem absent, Members.get?_cons_self]
    | item front back named =>
      simp only [child, existingIndex_inside front back inner named]
      simp

section

variable {value inner : Value} {token : String}

theorem setChild_member {front : Members} (absent : token ∉ Members.keys front) (old new : Value)
    (back : Members) : (object (front ++ (token, old) :: back)).setChild token new
      = object (front ++ (token, new) :: back) := by
  simp only [setChild, Members.get?_append_of_not_mem absent, Members.get?_cons_self,
    Option.isSome_some, if_true, Members.put_split absent]

theorem setChild_item {front : List Value}
    (named : ArrayPlace.ofToken token = .ok (.index front.length)) (old new : Value)
    (back : List Value) :
    (array (front ++ old :: back)).setChild token new = array (front ++ new :: back) := by
  simp only [setChild, existingIndex_inside front back old named]
  simp

theorem setChild_object {members : Members} (held : token ∈ Members.keys members) (new : Value) :
    (object members).setChild token new = object (Members.put token new members) := by
  rw [← Members.isSome_get?_iff] at held
  rw [setChild, if_pos held]

theorem existingIndex_of_child {items : List Value}
    (found : (array items).child token = .ok inner) :
    ∃ index, existingIndex token items.length = .ok index := by
  simp only [child] at found
  split at found
  · next index place => exact ⟨index, place⟩
  · contradiction

theorem mem_keys_of_child {members : Members} (found : (object members).child token = .ok inner) :
    token ∈ Members.keys members := by
  rw [← Members.isSome_get?_iff]
  simp only [child] at found
  split at found
  · next held => rw [held]; rfl
  · contradiction

-- The laws of one step, from which those of a way follow by induction on its tokens.

theorem setChild_setChild (found : value.child token = .ok inner) (first second : Value) :
    (value.setChild token first).setChild token second = value.setChild token second := by
  cases child_eq_ok_iff.mp found with
  | member back absent => simp only [setChild_member absent]
  | item front back named => simp only [setChild_item named]

theorem setChild_child (found : value.child token = .ok inner) :
    value.setChild token inner = value := by
  cases child_eq_ok_iff.mp found with
  | member back absent => rw [setChild_member absent]
  | item front back named => rw [setChild_item named]

theorem setChild_comm {other : String} {beside : Value} (found : value.child token = .ok inner)
    (foundBeside : value.child other = .ok beside) (differ : token ≠ other) (left right : Value) :
    (value.setChild token left).setChild other right
      = (value.setChild other right).setChild token left := by
  cases value with
  | object members =>
    have here := mem_keys_of_child found
    have there := mem_keys_of_child foundBeside
    simp only [setChild_object here, setChild_object there]
    rw [setChild_object (Members.mem_keys_put there), setChild_object (Members.mem_keys_put here),
      Members.put_comm differ here there]
  | array items =>
    obtain ⟨index, place⟩ := existingIndex_of_child found
    obtain ⟨reached, elsewhere⟩ := existingIndex_of_child foundBeside
    have apart : index ≠ reached := by
      rintro rfl
      exact differ (existingIndex_inj place elsewhere)
    simp only [setChild, place, elsewhere, List.length_set]
    rw [List.set_comm _ _ apart]
  | _ => contradiction

end

section

variable {value old : Value} {tokens : List String}

theorem set_append {inner : Value} {front : List String} (found : value.get front = .ok inner)
    (back : List String) (new : Value) :
    value.set (front ++ back) new = value.set front (inner.set back new) := by
  induction front generalizing value with
  | nil =>
    obtain rfl := Except.ok.inj found
    rfl
  | cons token rest ih =>
    obtain ⟨child, step, further⟩ := get_cons_eq_ok found
    rw [List.cons_append, set_cons step, set_cons step, ih further]

theorem set_concat {container : Value} {parents : List String} {token : String}
    (found : value.get parents = .ok container) (there : container.child token = .ok old)
    (new : Value) :
    value.set (parents ++ [token]) new = value.set parents (container.setChild token new) := by
  rw [set_append found, set_cons there]
  rfl

theorem set_set (found : value.get tokens = .ok old) (first second : Value) :
    (value.set tokens first).set tokens second = value.set tokens second := by
  induction tokens generalizing value with
  | nil => rfl
  | cons token rest ih =>
    obtain ⟨child, step, further⟩ := get_cons_eq_ok found
    rw [set_cons step, set_cons step, set_cons (child_setChild step _), ih further,
      setChild_setChild step]

theorem set_get (found : value.get tokens = .ok old) : value.set tokens old = value := by
  induction tokens generalizing value with
  | nil => exact (Except.ok.inj found).symm
  | cons token rest ih =>
    obtain ⟨child, step, further⟩ := get_cons_eq_ok found
    rw [set_cons step, ih further, setChild_child step]

theorem set_comm {beside : Value} {front back rest : List String} {token other : String}
    (found : value.get (front ++ token :: back) = .ok old)
    (foundBeside : value.get (front ++ other :: rest) = .ok beside) (differ : token ≠ other)
    (left right : Value) :
    (value.set (front ++ token :: back) left).set (front ++ other :: rest) right
      = (value.set (front ++ other :: rest) right).set (front ++ token :: back) left := by
  induction front generalizing value with
  | nil =>
    obtain ⟨child, step, -⟩ := get_cons_eq_ok found
    obtain ⟨sibling, stepBeside, -⟩ := get_cons_eq_ok foundBeside
    -- The ways part here, so each write leaves the child that the other one goes down to.
    have kept (new : Value) : (value.setChild token new).child other = .ok sibling :=
      (child_setChild_of_ne step (Ne.symm differ) new).trans stepBeside
    have keptBeside (new : Value) : (value.setChild other new).child token = .ok child :=
      (child_setChild_of_ne stepBeside differ new).trans step
    simp only [List.nil_append]
    rw [set_cons step, set_cons (kept _), set_cons stepBeside, set_cons (keptBeside _),
      setChild_comm step stepBeside differ]
  | cons first front ih =>
    obtain ⟨child, step, further⟩ := get_cons_eq_ok found
    obtain ⟨same, again, furtherBeside⟩ := get_cons_eq_ok foundBeside
    obtain rfl := Except.ok.inj (step.symm.trans again)
    simp only [List.cons_append]
    -- Both go down to one child, and the second write of that child is the one that stays.
    rw [set_cons step, set_cons (child_setChild step _), setChild_setChild step, set_cons step,
      set_cons (child_setChild step _), setChild_setChild step, ih further furtherBeside]

end

namespace KeysObey

variable {law : List String → Prop} {value inner old new : Value} {token : String}
  {tokens : List String}

theorem child (obeys : value.KeysObey law) (found : value.child token = .ok inner) :
    inner.KeysObey law := by
  cases child_eq_ok_iff.mp found with
  | member => exact (keysObey_object.mp obeys).2 (token, inner) (by simp)
  | item => exact (keysObey_array.mp obeys).2 inner (by simp)

theorem get (obeys : value.KeysObey law) (found : value.get tokens = .ok inner) :
    inner.KeysObey law := by
  induction tokens generalizing value with
  | nil => exact Except.ok.inj found ▸ obeys
  | cons token rest ih =>
    obtain ⟨child, step, further⟩ := get_cons_eq_ok found
    exact ih (obeys.child step) further

theorem setChild (obeys : value.KeysObey law) (found : value.child token = .ok inner)
    (newObeys : new.KeysObey law) : (value.setChild token new).KeysObey law := by
  cases child_eq_ok_iff.mp found with
  | member back absent =>
    rw [setChild_member absent]
    rw [keysObey_object, List.forall_mem_append, List.forall_mem_cons] at obeys ⊢
    obtain ⟨keys, front, -, rest⟩ := obeys
    exact ⟨by simpa using keys, front, newObeys, rest⟩
  | item front back named =>
    rw [setChild_item named]
    rw [keysObey_array, List.forall_mem_append, List.forall_mem_cons] at obeys ⊢
    obtain ⟨none, first, -, rest⟩ := obeys
    exact ⟨none, first, newObeys, rest⟩

theorem set (obeys : value.KeysObey law) (found : value.get tokens = .ok old)
    (newObeys : new.KeysObey law) : (value.set tokens new).KeysObey law := by
  induction tokens generalizing value with
  | nil => exact newObeys
  | cons token rest ih =>
    obtain ⟨child, step, further⟩ := get_cons_eq_ok found
    rw [set_cons step]
    exact obeys.setChild step (ih (obeys.child step) further)

end KeysObey

theorem DistinctKeys.get {value inner : Value} {tokens : List String}
    (distinct : value.DistinctKeys) (found : value.get tokens = .ok inner) : inner.DistinctKeys :=
  KeysObey.get distinct found

theorem DistinctKeys.set {value old new : Value} {tokens : List String}
    (distinct : value.DistinctKeys) (found : value.get tokens = .ok old)
    (newDistinct : new.DistinctKeys) : (value.set tokens new).DistinctKeys :=
  KeysObey.set distinct found newDistinct

end Value

namespace Pointer

/-- Neither of two pointers is on the way to the other. -/
structure Apart (first second : Pointer) : Prop where
  notFront : ¬ first.tokens <+: second.tokens
  notBehind : ¬ second.tokens <+: first.tokens

instance (first second : Pointer) : Decidable (Apart first second) :=
  decidable_of_iff (¬ first.tokens <+: second.tokens ∧ ¬ second.tokens <+: first.tokens)
    ⟨fun both => ⟨both.1, both.2⟩, fun apart => ⟨apart.notFront, apart.notBehind⟩⟩

theorem Apart.symm {first second : Pointer} (apart : Apart first second) : Apart second first :=
  ⟨apart.notBehind, apart.notFront⟩

/-- Such pointers share a way and part at its end. -/
theorem Apart.parting {first second : List String} (apart : Apart ⟨first⟩ ⟨second⟩) :
    ∃ front token other back rest, first = front ++ token :: back ∧ second = front ++ other :: rest
      ∧ token ≠ other := by
  induction first generalizing second with
  | nil => exact absurd (List.nil_prefix) apart.notFront
  | cons token back ih =>
    cases second with
    | nil => exact absurd (List.nil_prefix) apart.notBehind
    | cons other rest =>
      by_cases same : token = other
      · subst same
        have inner : Apart ⟨back⟩ ⟨rest⟩ :=
          ⟨fun before => apart.notFront (List.prefix_cons_inj _ |>.mpr before),
            fun behind => apart.notBehind (List.prefix_cons_inj _ |>.mpr behind)⟩
        obtain ⟨front, first, second, behind, beside, rfl, rfl, differ⟩ := ih inner
        exact ⟨token :: front, first, second, behind, beside, rfl, rfl, differ⟩
      · exact ⟨[], token, other, back, rest, rfl, rfl, same⟩

section

variable {first second : Pointer} {document old beside : Value}

theorem Apart.get_set (apart : Apart first second) (found : first.get document = .ok old)
    (new : Value) : second.get (document.set first.tokens new) = second.get document := by
  obtain ⟨front, token, other, back, rest, spelled, spelledBeside, differ⟩ := apart.parting
  rw [Pointer.get, spelled] at found
  rw [Pointer.get, Pointer.get, spelled, spelledBeside]
  exact Value.get_set_aside found (Ne.symm differ) new rest

theorem Apart.set_comm (apart : Apart first second) (found : first.get document = .ok old)
    (foundBeside : second.get document = .ok beside) (left right : Value) :
    (document.set first.tokens left).set second.tokens right
      = (document.set second.tokens right).set first.tokens left := by
  obtain ⟨front, token, other, back, rest, spelled, spelledBeside, differ⟩ := apart.parting
  rw [Pointer.get, spelled] at found
  rw [Pointer.get, spelledBeside] at foundBeside
  rw [spelled, spelledBeside, Value.set_comm found foundBeside differ]

end

end Pointer

end JsonTree
