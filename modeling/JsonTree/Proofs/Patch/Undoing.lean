import JsonTree.Proofs.Patch.Effect
import JsonTree.Proofs.Patch.Sequence
import JsonTree.Proofs.Pointer.Writing
import JsonTree.Proofs.Value.Rearrangement

/-! Operations that undo one another.

What was added at a new place is taken out there, and what was taken out of an array is put
back where it stood. An object has no place for a key that it lacks but its end, so a member
that is taken out and put back comes last; nothing else moves. A move is a removal and an
addition, and moving back undoes the second before the first, so both meet the tree that they
left.
-/

set_option autoImplicit false

namespace JsonTree

namespace Value

section

variable {container inner new edited : Value} {token : String}

theorem removeMember_member {front : Members} (absent : token ∉ Members.keys front) (old : Value)
    (back : Members) : (object (front ++ (token, old) :: back)).removeMember token
      = .ok (old, object (front ++ back)) := by
  simp only [removeMember, Members.get?_append_of_not_mem absent, Members.get?_cons_self,
    Members.erase_split absent]

theorem removeMember_item {front : List Value}
    (named : ArrayPlace.ofToken token = .ok (.index front.length)) (old : Value)
    (back : List Value) : (array (front ++ old :: back)).removeMember token
      = .ok (old, array (front ++ back)) := by
  simp only [removeMember, existingIndex_inside front back old named]
  simp [List.eraseIdx_append_of_length_le]

theorem addMember_item {front : List Value}
    (named : ArrayPlace.ofToken token = .ok (.index front.length)) (new : Value)
    (back : List Value) : (array (front ++ back)).addMember token new
      = .ok (array (front ++ new :: back)) := by
  simp only [addMember, named, Change.insertIdx_split]
  simp

theorem addMember_absent {members : Members} (absent : token ∉ Members.keys members)
    (new : Value) :
    (object members).addMember token new = .ok (object (members ++ [(token, new)])) := by
  rw [addMember, Members.put_of_not_mem absent]

/-- A token that an addition to a container finds free, and that names a fixed place. -/
structure TakesNew (container : Value) (token : String) : Prop where
  member : ∀ members, container = object members → token ∉ Members.keys members
  item : ∀ items, container = array items → token ≠ "-"

theorem removeMember_of_addMember (added : container.addMember token new = .ok edited)
    (takes : container.TakesNew token) : edited.removeMember token = .ok (new, container) := by
  cases Change.edits_add added with
  | overwriteMember old _ back absent => exact absurd (by simp) (takes.member _ rfl)
  | @appendMember _ members _ absent =>
    have removed := removeMember_member absent new []
    rwa [List.append_nil] at removed
  | @insertItem _ place front _ back named position =>
    cases place with
    | append => exact absurd (ArrayPlace.ofToken_eq_append named) (takes.item _ rfl)
    | index place =>
      obtain rfl : place = front.length := position
      exact removeMember_item named new back

/-- A container after the child of a token has been taken out and another value has been added
by the same token. -/
def renewChild (container : Value) (token : String) (new : Value) : Value :=
  match container with
  | .object members => .object (Members.erase token members ++ [(token, new)])
  | other => other.setChild token new

theorem renewChild_array (items : List Value) (token : String) (new : Value) :
    (array items).renewChild token new = (array items).setChild token new := rfl

theorem renewChild_member {front : Members} (absent : token ∉ Members.keys front) (old new : Value)
    (back : Members) : (object (front ++ (token, old) :: back)).renewChild token new
      = object (front ++ back ++ [(token, new)]) := by
  rw [renewChild, Members.erase_split absent]

theorem child_of_removeMember {left : Value}
    (removed : container.removeMember token = .ok (inner, left)) :
    container.child token = .ok inner := by
  have follows := removeMember_follows container token
  rw [removed] at follows
  generalize container.child token = lookup at follows ⊢
  cases follows with
  | found same => exact congrArg Except.ok same.symm

theorem addMember_of_removeMember (found : container.child token = .ok inner)
    (distinct : container.DistinctKeys) : ∃ left, container.removeMember token = .ok (inner, left)
      ∧ ∀ new, left.addMember token new = .ok (container.renewChild token new) := by
  cases child_eq_ok_iff.mp found with
  | @member front back absent =>
    refine ⟨_, removeMember_member absent inner back, fun new => ?_⟩
    -- No other member has the key, so it is new to those that are left.
    have keys := (distinctKeys_object.mp distinct).1
    rw [Members.keys_append, Members.keys_cons, List.nodup_middle, List.nodup_cons,
      ← Members.keys_append] at keys
    rw [renewChild_member absent, addMember_absent keys.1]
  | item front back named =>
    refine ⟨_, removeMember_item named inner back, fun new => ?_⟩
    rw [addMember_item named, renewChild_array, setChild_item named]

end

section

variable {document old new remaining changed : Value} {parents : List String} {token : String}

theorem removeAt_concat_iff :
    document.removeAt ⟨parents ++ [token]⟩ = .ok (old, remaining)
      ↔ ∃ container left, document.get parents = .ok container
        ∧ container.removeMember token = .ok (old, left)
        ∧ document.set parents left = remaining := by
  simp only [removeAt, Pointer.last?_concat, List.dropLast_concat, enter_bind, locate,
    bind_eq_ok_iff, mapError_eq_ok_iff, Prod.exists, pure, Except.pure, Except.ok.injEq,
    Prod.mk.injEq]
  constructor
  · rintro ⟨container, found, _, left, removed, rfl, rfl⟩
    exact ⟨container, left, found, removed, rfl⟩
  · rintro ⟨container, left, found, removed, rfl⟩
    exact ⟨container, found, old, left, removed, rfl, rfl⟩

theorem addAt_concat_iff :
    document.addAt ⟨parents ++ [token]⟩ new = .ok changed
      ↔ ∃ container edited, document.get parents = .ok container
        ∧ container.addMember token new = .ok edited ∧ document.set parents edited = changed :=
  (Change.applyAt_eq_ok_iff : (Change.add new).applyAt document _ = .ok changed ↔ _)

end

theorem membersMoved_self (value : Value) : MembersMoved value value :=
  corresponds_self (fun _ => rfl) value

/-- Documents that differ below one place in the order of members only do so as a whole. -/
theorem MembersMoved.setChild {value inner left right : Value} {token : String}
    (found : value.child token = .ok inner) (moved : MembersMoved left right) :
    MembersMoved (value.setChild token left) (value.setChild token right) := by
  cases child_eq_ok_iff.mp found with
  | member back absent =>
    rw [setChild_member absent, setChild_member absent]
    refine corresponds_object.mpr (paired_of_forall₂ (List.rel_append ?_ (.cons ⟨rfl, moved⟩ ?_)))
    · exact List.forall₂_same.mpr fun member _ => ⟨rfl, membersMoved_self member.2⟩
    · exact List.forall₂_same.mpr fun member _ => ⟨rfl, membersMoved_self member.2⟩
  | item front back named =>
    rw [setChild_item named, setChild_item named]
    refine corresponds_array.mpr (paired_of_forall₂ (List.rel_append ?_ (.cons moved ?_)))
    · exact List.forall₂_same.mpr fun item _ => membersMoved_self item
    · exact List.forall₂_same.mpr fun item _ => membersMoved_self item

theorem MembersMoved.set {value old left right : Value} {tokens : List String}
    (found : value.get tokens = .ok old) (moved : MembersMoved left right) :
    MembersMoved (value.set tokens left) (value.set tokens right) := by
  induction tokens generalizing value with
  | nil => exact moved
  | cons token rest ih =>
    obtain ⟨child, step, further⟩ := get_cons_eq_ok found
    rw [set_cons step, set_cons step]
    exact (ih further).setChild step

/-- A container with a new child, in its old place or at the end, differs in the order of
members only. -/
theorem membersMoved_renewChild {container inner : Value} {token : String}
    (found : container.child token = .ok inner) (new : Value) :
    MembersMoved (container.setChild token new) (container.renewChild token new) := by
  cases child_eq_ok_iff.mp found with
  | @member front back absent =>
    rw [setChild_member absent, renewChild_member absent]
    refine corresponds_object.mpr ⟨front ++ (token, new) :: back, ?_, List.forall₂_same.mpr
      fun member _ => ⟨rfl, membersMoved_self member.2⟩⟩
    exact List.perm_middle.trans (List.perm_append_singleton (token, new) (front ++ back)).symm
  | item front back named =>
    rw [renewChild_array]
    exact membersMoved_self _

end Value

/-- An addition at the pointer overwrites no member, and its last token names a fixed place of
an array. -/
structure Pointer.TakesNew (target : Pointer) (document : Value) : Prop where
  member : ∀ parent token members, target.parent? = some parent → target.last? = some token →
    parent.get document = .ok (.object members) → token ∉ Members.keys members
  item : ∀ parent items, target.parent? = some parent →
    parent.get document = .ok (.array items) → target.last? ≠ some "-"

theorem Pointer.takesNew_concat {document : Value} {parents : List String} {token : String} :
    TakesNew ⟨parents ++ [token]⟩ document
      ↔ ∀ container, document.get parents = .ok container → container.TakesNew token := by
  constructor
  · intro takes container found
    constructor
    · rintro members rfl
      exact takes.member _ _ _ (parent?_concat ..) (last?_concat ..) found
    · rintro items rfl same
      refine takes.item _ _ (parent?_concat ..) found ?_
      rw [last?_concat, same]
  · intro each
    constructor
    · intro parent name members enclosing named found
      obtain rfl := parent_of_concat enclosing
      obtain rfl := last_of_concat named
      exact (each _ found).member members rfl
    · intro parent items enclosing found named
      obtain rfl := parent_of_concat enclosing
      exact (each _ found).item items rfl (last_of_concat named)

/-- What a document is after the value at a pointer has been taken out and put back. -/
structure PutBack (target : Pointer) (document restored : Value) : Prop where
  /-- Up to the order of members it is what it was. -/
  moved : document.MembersMoved restored
  item : ∀ parent items, target.parent? = some parent →
    parent.get document = .ok (.array items) → restored = document
  lastMember : ∀ parent token front value, target.parent? = some parent →
    target.last? = some token → parent.get document = .ok (.object (front ++ [(token, value)])) →
    restored = document
  member : ∀ parent token front value back, target.parent? = some parent →
    target.last? = some token →
    parent.get document = .ok (.object (front ++ (token, value) :: back)) →
    restored = document.set parent.tokens (.object (front ++ back ++ [(token, value)]))

namespace Value

variable {document container old new remaining changed : Value} {target : Pointer}
  {parents : List String} {token : String}

theorem removeAt_of_addAt (added : document.addAt target new = .ok changed)
    (notRoot : target ≠ .root) (takes : target.TakesNew document) :
    changed.removeAt target = .ok (new, document) := by
  rcases target.root_or_concat with rfl | ⟨parents, token, rfl⟩
  · contradiction
  · obtain ⟨container, edited, found, addedThere, rfl⟩ := addAt_concat_iff.mp added
    have free := Pointer.takesNew_concat.mp takes container found
    refine removeAt_concat_iff.mpr ⟨edited, container, get_set found edited,
      removeMember_of_addMember addedThere free, ?_⟩
    rw [set_set found, set_get found]

theorem addAt_of_removeAt (distinct : document.DistinctKeys)
    (removed : document.removeAt ⟨parents ++ [token]⟩ = .ok (old, remaining)) :
    ∃ container, document.get parents = .ok container ∧ container.child token = .ok old
      ∧ ∀ new, remaining.addAt ⟨parents ++ [token]⟩ new
        = .ok (document.set parents (container.renewChild token new)) := by
  obtain ⟨container, left, found, removedThere, rfl⟩ := removeAt_concat_iff.mp removed
  have there := child_of_removeMember removedThere
  obtain ⟨_, again, added⟩ := addMember_of_removeMember there (distinct.get found)
  obtain ⟨-, rfl⟩ := Prod.mk.inj (Except.ok.inj (removedThere.symm.trans again))
  refine ⟨container, found, there, fun new => addAt_concat_iff.mpr ⟨left, _, get_set found left,
    added new, set_set found _ _⟩⟩

theorem putBack_renewChild (distinct : document.DistinctKeys)
    (found : document.get parents = .ok container) (there : container.child token = .ok old) :
    PutBack ⟨parents ++ [token]⟩ document
      (document.set parents (container.renewChild token old)) := by
  have member (name : String) (front : Members) (value : Value) (back : Members)
      (spelled : token = name)
      (enclosing : document.get parents = .ok (.object (front ++ (name, value) :: back))) :
      document.set parents (container.renewChild token old)
        = document.set parents (.object (front ++ back ++ [(name, value)])) := by
    subst spelled
    obtain rfl := Except.ok.inj (found.symm.trans enclosing)
    have keys := (distinctKeys_object.mp (distinct.get found)).1
    rw [Members.keys_append, Members.keys_cons, List.nodup_middle, List.nodup_cons,
      List.mem_append, not_or] at keys
    have absent := keys.1.1
    simp only [child, Members.get?_append_of_not_mem absent, Members.get?_cons_self] at there
    obtain rfl := Except.ok.inj there
    rw [renewChild_member absent]
  -- Renewed in its place an item is where it was; a member has gone behind the others.
  constructor
  case moved =>
    have moved := (membersMoved_renewChild there old).set found
    rwa [setChild_child there, set_get found] at moved
  case item =>
    intro other items enclosing held
    obtain rfl := Pointer.parent_of_concat enclosing
    obtain rfl := Except.ok.inj (found.symm.trans held)
    rw [renewChild_array, setChild_child there, set_get found]
  case member =>
    intro other name front value back enclosing named held
    obtain rfl := Pointer.parent_of_concat enclosing
    exact member name front value back (Pointer.last_of_concat named) held
  case lastMember =>
    intro other name front value enclosing named held
    obtain rfl := Pointer.parent_of_concat enclosing
    rw [member name front value [] (Pointer.last_of_concat named) held, List.append_nil,
      set_get held]

end Value

namespace Patch

section

variable {path source : String} {target origin : Pointer} {document changed new : Value}

theorem apply_add_iff (parsed : Pointer.parse path = .ok target) :
    apply [.add path new] document = .ok changed ↔ document.addAt target new = .ok changed :=
  (Change.apply_single_iff parsed : apply [(Change.add new).operation path] _ = _ ↔ _)

theorem apply_remove_iff (parsed : Pointer.parse path = .ok target) :
    apply [.remove path] document = .ok changed
      ↔ ∃ old, document.removeAt target = .ok (old, changed) := by
  refine (Change.apply_single_iff parsed :
    apply [Change.remove.operation path] _ = _ ↔ _).trans ?_
  rw [Change.applyAt, map_eq_ok_iff]
  simp

/-- A move adds what it has taken out to the document without it. -/
theorem apply_move_iff (sourceParsed : Pointer.parse source = .ok origin)
    (parsed : Pointer.parse path = .ok target) :
    apply [.move source path] document = .ok changed
      ↔ ∃ value remaining, document.removeAt origin = .ok (value, remaining)
        ∧ remaining.addAt target value = .ok changed := by
  simp only [apply_single, mapError_eq_ok_iff, Operation.apply,
    Operation.readPointer_ok sourceParsed, Operation.readPointer_ok parsed, Operation.placeFault,
    bind_eq_ok_iff, Except.ok.injEq, exists_eq_left', Prod.exists]

end

/-- An addition at a new place is undone by a removal. A removal is undone by an addition, but
for the place of a member in its object, and so is a move by one the other way. -/
theorem changes_undone {path : String} {target : Pointer} {document : Value}
    (parsed : Pointer.parse path = .ok target) (notRoot : target ≠ .root) :
    (∀ new changed, target.TakesNew document → apply [.add path new] document = .ok changed →
        apply [.add path new, .remove path] document = .ok document)
      ∧ (document.DistinctKeys → ∀ found, target.get document = .ok found →
        ∃ restored, apply [.remove path, .add path found] document = .ok restored
          ∧ PutBack target document restored)
      ∧ (document.DistinctKeys → ∀ source origin changed, Pointer.parse source = .ok origin →
        (∀ remaining, apply [.remove source] document = .ok remaining →
          target.TakesNew remaining) →
        apply [.move source path] document = .ok changed →
        ∃ restored, apply [.move source path, .move path source] document = .ok restored
          ∧ PutBack origin document restored ∧ document.equals .ordered restored = true) := by
  refine ⟨?_, ?_, ?_⟩
  · intro new changed takes done
    have added := (apply_add_iff parsed).mp done
    exact apply_pair_eq_ok_iff.mpr ⟨changed, done, (apply_remove_iff parsed).mpr
      ⟨new, Value.removeAt_of_addAt added notRoot takes⟩⟩
  · intro distinct found there
    obtain ⟨remaining, removed⟩ := Operation.removeAt_eq_ok_iff.mpr ⟨there, notRoot⟩
    rcases target.root_or_concat with rfl | ⟨parents, token, rfl⟩
    · contradiction
    · obtain ⟨container, enclosing, child, added⟩ := Value.addAt_of_removeAt distinct removed
      have taken := (apply_remove_iff parsed).mpr ⟨found, removed⟩
      refine ⟨_, apply_pair_eq_ok_iff.mpr ⟨remaining, taken,
        (apply_add_iff parsed).mpr (added found)⟩, ?_⟩
      exact Value.putBack_renewChild distinct enclosing child
  · intro distinct source origin changed sourceParsed takes done
    obtain ⟨value, remaining, removed, added⟩ := (apply_move_iff sourceParsed parsed).mp done
    have free := takes remaining ((apply_remove_iff sourceParsed).mpr ⟨value, removed⟩)
    -- The way back takes the value out of the very document that the way there had left
    -- without it, so the source means there what it meant.
    have takenBack := Value.removeAt_of_addAt added notRoot free
    rcases origin.root_or_concat with rfl | ⟨parents, token, rfl⟩
    · contradiction
    · obtain ⟨container, enclosing, child, addedBack⟩ := Value.addAt_of_removeAt distinct removed
      have back := Value.putBack_renewChild distinct enclosing child
      refine ⟨_, apply_pair_eq_ok_iff.mpr ⟨changed, done, (apply_move_iff parsed sourceParsed).mpr
        ⟨value, remaining, takenBack, addedBack value⟩⟩, back, back.moved.equals .ordered distinct⟩

/-- An item is moved into the one behind it, which takes its place meanwhile. -/
theorem changes_undone_shifted :
    let document : Value := .object [("a", .array [.null, .object [("x", .bool true)]])]
    let changed : Value := .object [("a", .array [.object [("x", .bool true), ("y", .null)]])]
    Pointer.parse "/a/0/y" = .ok ⟨["a", "0", "y"]⟩
      ∧ apply [.move "/a/0" "/a/0/y"] document = .ok changed
      ∧ apply [.move "/a/0" "/a/0/y", .move "/a/0/y" "/a/0"] document = .ok document := by
  intro document changed
  have parsed : Pointer.parse "/a/0/y" = .ok ⟨["a", "0", "y"]⟩ := by rfl
  have done : apply [.move "/a/0" "/a/0/y"] document = .ok changed := by rfl
  have distinct : document.DistinctKeys := by decide
  have takes : ∀ remaining, apply [.remove "/a/0"] document = .ok remaining →
      Pointer.TakesNew ⟨["a", "0", "y"]⟩ remaining := by
    intro remaining removed
    obtain rfl := Except.ok.inj removed
    refine (@Pointer.takesNew_concat _ ["a", "0"] "y").mpr fun container found => ?_
    obtain rfl := Except.ok.inj found
    refine ⟨?_, nofun⟩
    rintro _ ⟨⟩
    decide
  obtain ⟨-, -, moves⟩ := changes_undone parsed (by decide)
  obtain ⟨restored, back, putBack, -⟩ := moves distinct "/a/0" ⟨["a", "0"]⟩ changed rfl takes done
  obtain rfl := putBack.item ⟨["a"]⟩ [.null, .object [("x", .bool true)]] rfl rfl
  exact ⟨parsed, done, back⟩

end Patch

end JsonTree
