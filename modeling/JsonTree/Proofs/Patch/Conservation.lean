import Mathlib.Data.Multiset.Bind
import Mathlib.Tactic.Abel
import JsonTree.Proofs.Patch.Undoing
import JsonTree.Proofs.Value.Sharing

/-! Moves and copies neither lose nor make up data.

A document is accounted for by its scalars, each counted as often as it comes. To write at a
place is to take the scalars of the new value for those of the old one, whatever lies around
it; so a removal gives up what it takes out, and an addition gains what it adds less a member
that it overwrites. A move is one and then the other, and its account needs no look at how the
two pointers lie to each other or at where the removal has shifted what the addition meets.
-/

set_option autoImplicit false

namespace JsonTree

namespace Value

def scalars (value : Value) : Multiset Value :=
  Multiset.ofList ((value :: value.descendants).filter fun inner => !inner.isContainer)

theorem scalars_of_isContainer {value : Value} (container : value.isContainer = true) :
    value.scalars = (value.children.map scalars).sum := by
  rw [scalars, List.filter_cons_of_neg (by simp [container]), descendants_eq]
  induction value.children with
  | nil => rfl
  | cons child rest ih =>
    rw [List.flatMap_cons, List.filter_append, ← Multiset.coe_add, ih, List.map_cons,
      List.sum_cons, scalars]

theorem scalars_array (items : List Value) : (array items).scalars = (items.map scalars).sum :=
  scalars_of_isContainer rfl

theorem scalars_object (members : Members) :
    (object members).scalars = (members.map fun member => member.2.scalars).sum := by
  rw [scalars_of_isContainer (by rfl), children, List.map_map]
  rfl

section

variable {container edited new old : Value} {token : String}

theorem scalars_object_split (front back : Members) (token : String) (inner : Value) :
    (object (front ++ (token, inner) :: back)).scalars
      = (object (front ++ back)).scalars + inner.scalars := by
  simp only [scalars_object, List.map_append, List.map_cons, List.sum_append, List.sum_cons]
  abel

theorem scalars_array_split (front back : List Value) (inner : Value) :
    (array (front ++ inner :: back)).scalars
      = (array (front ++ back)).scalars + inner.scalars := by
  simp only [scalars_array, List.map_append, List.map_cons, List.sum_append, List.sum_cons]
  abel

theorem scalars_setChild (found : container.child token = .ok old) (new : Value) :
    (container.setChild token new).scalars + old.scalars
      = container.scalars + new.scalars := by
  cases child_eq_ok_iff.mp found with
  | member back absent =>
    rw [setChild_member absent, scalars_object_split, scalars_object_split, add_right_comm]
  | item front back named =>
    rw [setChild_item named, scalars_array_split, scalars_array_split, add_right_comm]

theorem scalars_removeMember (removed : container.removeMember token = .ok (old, edited)) :
    edited.scalars + old.scalars = container.scalars := by
  cases child_eq_ok_iff.mp (child_of_removeMember removed) with
  | member back absent =>
    rw [removeMember_member absent] at removed
    obtain ⟨-, rfl⟩ := Prod.mk.inj (Except.ok.inj removed)
    exact (scalars_object_split ..).symm
  | item front back named =>
    rw [removeMember_item named] at removed
    obtain ⟨-, rfl⟩ := Prod.mk.inj (Except.ok.inj removed)
    exact (scalars_array_split ..).symm

/-- The scalars of the member that an addition to a container overwrites, if there is one. -/
def overwritten (container : Value) (token : String) : Multiset Value :=
  (container.member? token).elim 0 scalars

theorem scalars_addMember (added : container.addMember token new = .ok edited) :
    edited.scalars + container.overwritten token = container.scalars + new.scalars := by
  cases Change.edits_add added with
  | @overwriteMember _ front old _ back absent =>
    have lost : (object (front ++ (token, old) :: back)).overwritten token = old.scalars := by
      simp only [overwritten, member?, object?, Option.bind_some,
        Members.get?_append_of_not_mem absent, Members.get?_cons_self, Option.elim_some]
    rw [lost, scalars_object_split, scalars_object_split, add_right_comm]
  | @appendMember _ members _ absent =>
    have lost : (object members).overwritten token = 0 := by
      simp only [overwritten, member?, object?, Option.bind_some,
        Members.get?_eq_none_iff.mpr absent, Option.elim_none]
    rw [lost, add_zero, scalars_object_split, List.append_nil]
  | insertItem front _ back =>
    rw [show (array (front ++ back)).overwritten token = 0 from rfl, add_zero,
      scalars_array_split]

/-- The token that leads to a value that has been added to a container: the one it was added by
or, for a `-`, the last index of the array. -/
def landing (edited : Value) (token : String) : String :=
  match edited with
  | .array items => if token = "-" then natText (items.length - 1) else token
  | _ => token

theorem child_landing (added : container.addMember token new = .ok edited)
    (bound : ∀ items, edited = .array items → (items.length : Int) ≤ greatestUInt64) :
    edited.child (edited.landing token) = .ok new := by
  cases Change.edits_add added with
  | overwriteMember | appendMember => exact (Change.edits_add added).child_written rfl nofun
  | @insertItem _ _ front _ back named position =>
    have length : (front ++ new :: back).length = (front ++ back).length + 1 := by
      simp only [List.length_append, List.length_cons]
      omega
    have counted := bound _ rfl
    rw [length] at counted
    by_cases last : token = "-"
    · rw [landing, if_pos last, length, Nat.add_sub_cancel]
      exact (Change.edits_add added).child_appended last (by omega)
    · rw [landing, if_neg last]
      exact (Change.edits_add added).child_written rfl fun _ _ => last

end

end Value

theorem exchange_trans {whole before after part lost gained : Multiset Value}
    (outer : after + part = whole + before) (inner : before + lost = part + gained) :
    after + lost = whole + gained := by
  refine add_right_cancel (b := part) ?_
  calc after + lost + part = after + part + lost := add_right_comm ..
    _ = whole + (before + lost) := by rw [outer, add_assoc]
    _ = whole + gained + part := by rw [inner, add_comm part, add_assoc]

namespace Pointer

/-- The scalars of the member that an addition at the pointer overwrites, if there is one. -/
def overwritten (target : Pointer) (document : Value) : Multiset Value :=
  match target.last?, document.get target.tokens.dropLast with
  | some token, .ok container => container.overwritten token
  | _, _ => 0

/-- The pointer to a value that has been added at a pointer. -/
def landing (target : Pointer) (changed : Value) : Pointer :=
  match target.last?, changed.get target.tokens.dropLast with
  | some token, .ok edited => ⟨target.tokens.dropLast ++ [edited.landing token]⟩
  | _, _ => target

end Pointer

namespace Value

variable {document old new remaining changed : Value} {target : Pointer} {tokens : List String}

theorem scalars_set (found : document.get tokens = .ok old) (new : Value) :
    (document.set tokens new).scalars + old.scalars = document.scalars + new.scalars := by
  induction tokens generalizing document with
  | nil =>
    obtain rfl := Except.ok.inj found
    exact add_comm ..
  | cons token rest ih =>
    obtain ⟨child, step, further⟩ := get_cons_eq_ok found
    rw [set_cons step]
    exact exchange_trans (scalars_setChild step _) (ih further)

theorem scalars_removeAt (removed : document.removeAt target = .ok (old, remaining)) :
    remaining.scalars + old.scalars = document.scalars := by
  rcases target.root_or_concat with rfl | ⟨parents, token, rfl⟩
  · contradiction
  · obtain ⟨container, left, found, removedThere, rfl⟩ := removeAt_concat_iff.mp removed
    have balance := exchange_trans (scalars_set found left)
      ((scalars_removeMember removedThere).trans (add_zero _).symm)
    rwa [add_zero] at balance

/-- An addition below the root gains the scalars of the new value, loses those of the member
that it overwrites, and leaves the new value where it lands. -/
theorem addAt_accounts (added : document.addAt target new = .ok changed)
    (notRoot : target ≠ .root) (countable : target.Countable changed) :
    changed.scalars + target.overwritten document = document.scalars + new.scalars
      ∧ (target.landing changed).get changed = .ok new := by
  rcases target.root_or_concat with rfl | ⟨parents, token, rfl⟩
  · contradiction
  · obtain ⟨container, edited, found, addedThere, rfl⟩ := addAt_concat_iff.mp added
    have there := get_set found edited
    constructor
    · have lost : Pointer.overwritten ⟨parents ++ [token]⟩ document
          = container.overwritten token := by
        simp only [Pointer.overwritten, Pointer.last?_concat, List.dropLast_concat, found]
      rw [lost]
      exact exchange_trans (scalars_set found edited) (scalars_addMember addedThere)
    · have lands : Pointer.landing ⟨parents ++ [token]⟩ (document.set parents edited)
          = ⟨parents ++ [edited.landing token]⟩ := by
        simp only [Pointer.landing, Pointer.last?_concat, List.dropLast_concat, there]
      rw [lands, Pointer.get, get_append_of_ok there, get_cons,
        child_landing addedThere fun items array =>
          countable ⟨parents⟩ items (Pointer.parent?_concat parents token) (array ▸ there)]
      rfl

end Value

namespace Patch

variable {source path : String} {origin target : Pointer} {document found changed : Value}

theorem apply_copy_iff (sourceParsed : Pointer.parse source = .ok origin)
    (parsed : Pointer.parse path = .ok target) :
    apply [.copy source path] document = .ok changed
      ↔ ∃ value, origin.get document = .ok value ∧ document.addAt target value = .ok changed := by
  simp only [apply_single, mapError_eq_ok_iff, Operation.apply,
    Operation.readPointer_ok sourceParsed, Operation.readPointer_ok parsed, Operation.placeFault,
    bind_eq_ok_iff, Except.ok.injEq, exists_eq_left', Value.locate]
  rfl

theorem apply_test_found (distinct : found.DistinctKeys)
    (there : target.get document = .ok found) :
    apply [.test target.text found] document = .ok document := by
  rw [apply_single, (Operation.apply_follows_lookup target.parse_text document).tests _ _ there,
    if_pos (Value.equals_self distinct .ordered)]
  rfl

/-- A move that is not to the root keeps the scalars of the document but for those of a member
that it overwrites in what the removal has left, and a copy adds those of the copied value.
The value is found unchanged where it lands, and a test there passes. -/
theorem transfers_conserve (sourceParsed : Pointer.parse source = .ok origin)
    (parsed : Pointer.parse path = .ok target) (notRoot : target ≠ .root)
    (distinct : document.DistinctKeys) (countable : target.Countable changed) :
    (apply [.move source path] document = .ok changed →
        ∃ value remaining, origin.get document = .ok value
          ∧ apply [.remove source] document = .ok remaining
          ∧ changed.scalars + target.overwritten remaining = document.scalars
          ∧ (target.landing changed).get changed = .ok value
          ∧ apply [.move source path, .test (target.landing changed).text value] document
            = .ok changed)
      ∧ (apply [.copy source path] document = .ok changed →
        ∃ value, origin.get document = .ok value
          ∧ changed.scalars + target.overwritten document = document.scalars + value.scalars
          ∧ (target.landing changed).get changed = .ok value
          ∧ apply [.copy source path, .test (target.landing changed).text value] document
            = .ok changed) := by
  constructor
  · intro done
    obtain ⟨value, remaining, removed, added⟩ := (apply_move_iff sourceParsed parsed).mp done
    obtain ⟨held, -⟩ := Operation.removeAt_eq_ok_iff.mp ⟨remaining, removed⟩
    obtain ⟨balance, there⟩ := Value.addAt_accounts added notRoot countable
    rw [Value.scalars_removeAt removed] at balance
    exact ⟨value, remaining, held, (apply_remove_iff sourceParsed).mpr ⟨value, removed⟩, balance,
      there, apply_pair_eq_ok_iff.mpr ⟨changed, done, apply_test_found (distinct.get held) there⟩⟩
  · intro done
    obtain ⟨value, held, added⟩ := (apply_copy_iff sourceParsed parsed).mp done
    obtain ⟨balance, there⟩ := Value.addAt_accounts added notRoot countable
    exact ⟨value, held, balance, there, apply_pair_eq_ok_iff.mpr
      ⟨changed, done, apply_test_found (distinct.get held) there⟩⟩

/-- An item is moved to the end of the one behind it, and that one is copied over a member. -/
theorem transfers_conserve_shifted :
    let one : Value := .number (.ofInt 1)
    let pair : Value := .array [.bool true, one]
    let document : Value := .object [("a", .array [one, pair]), ("b", .string "x")]
    let moved : Value :=
      .object [("a", .array [.array [.bool true, one, one]]), ("b", .string "x")]
    let copied : Value := .object [("a", .array [one, pair]), ("b", pair)]
    document.DistinctKeys
      ∧ (Pointer.parse "/a/0/-" = .ok ⟨["a", "0", "-"]⟩
        ∧ Pointer.Countable ⟨["a", "0", "-"]⟩ moved
        ∧ apply [.move "/a/0" "/a/0/-"] document = .ok moved
        ∧ moved.scalars = document.scalars
        ∧ apply [.move "/a/0" "/a/0/-", .test "/a/0/2" one] document = .ok moved)
      ∧ Pointer.parse "/b" = .ok ⟨["b"]⟩
      ∧ Pointer.Countable ⟨["b"]⟩ copied
      ∧ apply [.copy "/a/1" "/b"] document = .ok copied
      ∧ copied.scalars + {.string "x"} = document.scalars + pair.scalars
      ∧ apply [.copy "/a/1" "/b", .test "/b" pair] document = .ok copied := by
  intro one pair document moved copied
  have distinct : document.DistinctKeys := by decide
  have item : Pointer.parse "/a/0" = .ok ⟨["a", "0"]⟩ := by rfl
  have next : Pointer.parse "/a/1" = .ok ⟨["a", "1"]⟩ := by rfl
  have behind : Pointer.parse "/a/0/-" = .ok ⟨["a", "0", "-"]⟩ := by rfl
  have member : Pointer.parse "/b" = .ok ⟨["b"]⟩ := by rfl
  have movedCounts : Pointer.Countable ⟨["a", "0", "-"]⟩ moved := by
    rintro _ items ⟨⟩ found
    obtain rfl := Value.array.inj (Except.ok.inj found)
    decide
  have copiedCounts : Pointer.Countable ⟨["b"]⟩ copied := by
    rintro _ items ⟨⟩ found
    exact nomatch Except.ok.inj found
  have move : apply [.move "/a/0" "/a/0/-"] document = .ok moved := by rfl
  have copy : apply [.copy "/a/1" "/b"] document = .ok copied := by rfl
  obtain ⟨value, remaining, held, removed, balance, -, passes⟩ :=
    (transfers_conserve item behind (by decide) distinct movedCounts).1 move
  obtain ⟨part, taken, account, -, passesToo⟩ :=
    (transfers_conserve next member (by decide) distinct copiedCounts).2 copy
  obtain rfl : one = value := Except.ok.inj held
  obtain rfl : Value.object [("a", .array [pair]), ("b", .string "x")] = remaining :=
    Except.ok.inj removed
  obtain rfl : pair = part := Except.ok.inj taken
  have none : Pointer.overwritten ⟨["a", "0", "-"]⟩
      (.object [("a", .array [pair]), ("b", .string "x")]) = 0 := by rfl
  have lost : Pointer.overwritten ⟨["b"]⟩ document = {.string "x"} := by rfl
  have lands : (Pointer.landing ⟨["a", "0", "-"]⟩ moved).text = "/a/0/2" := by decide +kernel
  have landsToo : (Pointer.landing ⟨["b"]⟩ copied).text = "/b" := by decide +kernel
  rw [none, add_zero] at balance
  rw [lands] at passes
  rw [lost] at account
  rw [landsToo] at passesToo
  exact ⟨distinct, ⟨behind, movedCounts, move, balance, passes⟩, member, copiedCounts, copy,
    account, passesToo⟩

end Patch

end JsonTree
