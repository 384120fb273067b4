import JsonTree.Proofs.Patch.Change

/-! What a document reads as after a change, pointer by pointer. -/

set_option autoImplicit false

namespace JsonTree

/-- The place in a longer list of what has a place in a list without one of its elements. -/
def skip (index place : Nat) : Nat := if place < index then place else place + 1

theorem le_skip (index place : Nat) : place ≤ skip index place := by
  unfold skip
  split <;> omega

theorem getElem?_skip {α : Type} (front back : List α) (middle : α) (place : Nat) :
    (front ++ middle :: back)[skip front.length place]? = (front ++ back)[place]? := by
  unfold skip
  split
  · next before => rw [List.getElem?_append_left before, List.getElem?_append_left before]
  · next behind =>
    have later : front.length ≤ place := Nat.le_of_not_lt behind
    rw [List.getElem?_append_right (Nat.le_succ_of_le later), List.getElem?_append_right later,
      Nat.succ_sub later, List.getElem?_cons_succ]

def ArrayPlace.within (length : Nat) : ArrayPlace → Nat
  | .index place => place
  | .append => length

namespace Change

/-- What a change does to the container that its pointer ends in. Nothing changes its
order, and what is not added or taken away keeps its value. -/
inductive Edits : Change → String → Value → Value → Prop where
  | overwriteMember {token : String} {front : Members} (old new : Value) (back : Members) :
      token ∉ Members.keys front →
      Edits (.add new) token (.object (front ++ (token, old) :: back))
        (.object (front ++ (token, new) :: back))
  | appendMember {token : String} {members : Members} (new : Value) :
      token ∉ Members.keys members →
      Edits (.add new) token (.object members) (.object (members ++ [(token, new)]))
  | replaceMember {token : String} {front : Members} (old new : Value) (back : Members) :
      token ∉ Members.keys front →
      Edits (.replace new) token (.object (front ++ (token, old) :: back))
        (.object (front ++ (token, new) :: back))
  | removeMember {token : String} {front : Members} (old : Value) (back : Members) :
      token ∉ Members.keys front →
      Edits .remove token (.object (front ++ (token, old) :: back)) (.object (front ++ back))
  | insertItem {token : String} {place : ArrayPlace} (front : List Value) (new : Value)
      (back : List Value) :
      ArrayPlace.ofToken token = .ok place → place.within (front ++ back).length = front.length →
      Edits (.add new) token (.array (front ++ back)) (.array (front ++ new :: back))
  | replaceItem {token : String} (front : List Value) (old new : Value) (back : List Value) :
      ArrayPlace.ofToken token = .ok (.index front.length) →
      Edits (.replace new) token (.array (front ++ old :: back)) (.array (front ++ new :: back))
  | removeItem {token : String} (front : List Value) (old : Value) (back : List Value) :
      ArrayPlace.ofToken token = .ok (.index front.length) →
      Edits .remove token (.array (front ++ old :: back)) (.array (front ++ back))

theorem split_at {items : List Value} {index : Nat} (inside : index ≤ items.length) :
    ∃ front back, items = front ++ back ∧ front.length = index :=
  ⟨items.take index, items.drop index, (List.take_append_drop ..).symm, by simp [inside]⟩

theorem split_around {items : List Value} {index : Nat} (inside : index < items.length) :
    ∃ front old back, items = front ++ old :: back ∧ front.length = index :=
  ⟨items.take index, items[index], items.drop (index + 1), by simp, by simp; omega⟩

theorem insertIdx_split (front back : List Value) (new : Value) :
    (front ++ back).insertIdx front.length new = front ++ new :: back := by
  induction front with
  | nil => exact List.insertIdx_zero
  | cons item rest ih =>
    rw [List.cons_append, List.length_cons, List.insertIdx_succ_cons, ih, List.cons_append]

theorem edits_add {new container edited : Value} {token : String}
    (added : container.addMember token new = .ok edited) :
    Edits (.add new) token container edited := by
  cases container with
  | object members =>
    obtain rfl := Except.ok.inj added
    -- The key is there and keeps its place, or it comes last.
    cases held : Members.get? token members with
    | none =>
      have absent := Members.get?_eq_none_iff.mp held
      rw [Members.put_of_not_mem absent]
      exact .appendMember new absent
    | some old =>
      obtain ⟨front, back, rfl, absent⟩ := Members.split_of_get? held
      rw [Members.put_split absent]
      exact .overwriteMember old new back absent
  | array items =>
    simp only [Value.addMember] at added
    split at added
    · next named =>
      obtain rfl := Except.ok.inj added
      have edits := Edits.insertItem items new [] named (by simp [ArrayPlace.within])
      rwa [List.append_nil] at edits
    · next index named =>
      split at added
      · next inside =>
        obtain rfl := Except.ok.inj added
        obtain ⟨front, back, rfl, rfl⟩ := split_at inside
        rw [insertIdx_split]
        exact .insertItem front new back named rfl
      · contradiction
    · contradiction
  | _ => contradiction

theorem edits_replace {new container edited : Value} {token : String}
    (replaced : container.replaceMember token new = .ok edited) :
    Edits (.replace new) token container edited := by
  cases container with
  | object members =>
    simp only [Value.replaceMember] at replaced
    split at replaced
    · next held =>
      obtain rfl := Except.ok.inj replaced
      obtain ⟨old, held⟩ := Option.isSome_iff_exists.mp held
      obtain ⟨front, back, rfl, absent⟩ := Members.split_of_get? held
      rw [Members.put_split absent]
      exact .replaceMember old new back absent
    · contradiction
  | array items =>
    simp only [Value.replaceMember] at replaced
    split at replaced
    · next index place =>
      obtain rfl := Except.ok.inj replaced
      obtain ⟨named, inside⟩ := existingIndex_eq_ok_iff.mp place
      obtain ⟨front, old, back, rfl, rfl⟩ := split_around inside
      rw [List.set_append_right _ _ (Nat.le_refl _), Nat.sub_self, List.set_cons_zero]
      exact .replaceItem front old new back named
    · contradiction
  | _ => contradiction

theorem edits_remove {container old edited : Value} {token : String}
    (removed : container.removeMember token = .ok (old, edited)) :
    Edits .remove token container edited := by
  cases container with
  | object members =>
    simp only [Value.removeMember] at removed
    split at removed
    · next held =>
      obtain ⟨rfl, rfl⟩ := Prod.mk.inj (Except.ok.inj removed)
      obtain ⟨front, back, rfl, absent⟩ := Members.split_of_get? held
      rw [Members.erase_split absent]
      exact .removeMember _ back absent
    · contradiction
  | array items =>
    simp only [Value.removeMember] at removed
    split at removed
    · next index place =>
      obtain ⟨named, inside⟩ := existingIndex_eq_ok_iff.mp place
      obtain ⟨front, taken, back, rfl, rfl⟩ := split_around inside
      rw [List.getElem?_append_right (Nat.le_refl _), Nat.sub_self] at removed
      obtain ⟨-, rfl⟩ := Prod.mk.inj (Except.ok.inj removed)
      rw [List.eraseIdx_append_of_length_le (Nat.le_refl _), Nat.sub_self, List.eraseIdx_cons_zero]
      exact .removeItem front taken back named
    · contradiction
  | _ => contradiction

theorem edits_of_edit {change : Change} {container edited : Value} {token : String}
    (done : change.edit container token = .ok edited) : change.Edits token container edited := by
  cases change with
  | add new => exact edits_add done
  | replace new => exact edits_replace done
  | remove =>
    simp only [edit] at done
    cases removed : container.removeMember token with
    | error fault => rw [removed] at done; contradiction
    | ok pair =>
      rw [removed] at done
      obtain rfl := Except.ok.inj done
      exact edits_remove removed

namespace Edits

variable {change : Change} {token other : String} {value after : Value} {members : Members}
  {items : List Value}

theorem child_beside (edits : change.Edits token (.object members) after)
    (differ : other ≠ token) : after.child other = (Value.object members).child other := by
  cases edits with
  | overwriteMember | replaceMember =>
    simp only [Value.child, Members.get?_append_cons_of_ne differ]
  | appendMember new absent =>
    simp only [Value.child, Members.get?_append_cons_of_ne differ, List.append_nil]
  | removeMember => simp only [Value.child, Members.get?_append_cons_of_ne differ]

theorem child_gone (edits : Edits .remove token (.object members) after)
    (distinct : (Members.keys members).Nodup) : after.child token = .error .pathNotFound := by
  cases edits with
  | @removeMember front _ old back absent =>
    rw [Members.keys_append, Members.keys_cons, List.nodup_append, List.nodup_cons] at distinct
    have missing := Members.get?_eq_none_iff.mpr distinct.2.1.1
    simp only [Value.child, Members.get?_append_of_not_mem absent, missing]

theorem child_written {before : Value} (edits : change.Edits token before after)
    (new : change.value? = some value) (indexed : ∀ items, before = .array items → token ≠ "-") :
    after.child token = .ok value := by
  cases edits with
  | overwriteMember old _ back absent | replaceMember old _ back absent =>
    obtain rfl := Option.some.inj new
    simp only [Value.child, Members.get?_append_of_not_mem absent, Members.get?_cons_self]
  | appendMember _ absent =>
    obtain rfl := Option.some.inj new
    simp only [Value.child, Members.get?_append_of_not_mem absent, Members.get?_cons_self]
  | removeMember | removeItem => contradiction
  | @insertItem _ place front _ back named position =>
    obtain rfl := Option.some.inj new
    cases place with
    | append => exact absurd (ArrayPlace.ofToken_eq_append named) (indexed _ rfl)
    | index place =>
      obtain rfl : place = front.length := position
      obtain ⟨rfl, bound⟩ := ArrayPlace.ofToken_eq_index_iff.mp named
      simp [Value.child_array_natText bound]
  | replaceItem front old _ back named =>
    obtain rfl := Option.some.inj new
    obtain ⟨rfl, bound⟩ := ArrayPlace.ofToken_eq_index_iff.mp named
    simp [Value.child_array_natText bound]

theorem child_appended (edits : Edits (.add value) token (.array items) after)
    (last : token = "-") (bound : (items.length : Int) ≤ greatestUInt64) :
    after.child (natText items.length) = .ok value := by
  cases edits with
  | @insertItem _ place front _ back named position =>
    subst last
    obtain rfl := Except.ok.inj named
    have position : (front ++ back).length = front.length := position
    rw [Value.child_array_natText bound, position]
    simp

/-- Items in front of an insertion keep their places and the others move up by one. -/
theorem child_inserted (edits : Edits (.add value) token (.array items) after)
    {place : ArrayPlace} (named : ArrayPlace.ofToken token = .ok place) {old : Nat}
    (bound : (skip (place.within items.length) old : Int) ≤ greatestUInt64) :
    after.child (natText (skip (place.within items.length) old))
      = (Value.array items).child (natText old) := by
  have lower : (old : Int) ≤ greatestUInt64 :=
    Int.le_trans (Int.ofNat_le.mpr (le_skip _ old)) bound
  cases edits with
  | @insertItem _ same front _ back named' position =>
    obtain rfl := Except.ok.inj (named.symm.trans named')
    rw [Value.child_array_natText bound, Value.child_array_natText lower, position, getElem?_skip]

/-- Items behind one that is taken out move down by one. -/
theorem child_taken (edits : Edits .remove token (.array items) after) {index : Nat}
    (named : ArrayPlace.ofToken token = .ok (.index index)) {left : Nat}
    (bound : (skip index left : Int) ≤ greatestUInt64) :
    after.child (natText left) = (Value.array items).child (natText (skip index left)) := by
  have lower : (left : Int) ≤ greatestUInt64 :=
    Int.le_trans (Int.ofNat_le.mpr (le_skip _ left)) bound
  cases edits with
  | removeItem front old back named' =>
    obtain rfl := ArrayPlace.index.inj (Except.ok.inj (named.symm.trans named'))
    rw [Value.child_array_natText bound, Value.child_array_natText lower, getElem?_skip]

theorem child_kept (edits : Edits (.replace value) token (.array items) after)
    (differ : other ≠ token) : after.child other = (Value.array items).child other := by
  cases edits with
  | replaceItem front old _ back named =>
    by_cases placed : ∃ place, ArrayPlace.ofToken other = .ok (.index place)
    · obtain ⟨place, elsewhere⟩ := placed
      obtain ⟨rfl, bound⟩ := ArrayPlace.ofToken_eq_index_iff.mp elsewhere
      have apart : front.length ≠ place := by
        rintro rfl
        exact differ (ArrayPlace.ofToken_eq_index_iff.mp named).1.symm
      rw [Value.child_array_natText bound, Value.child_array_natText bound,
        show front ++ value :: back = (front ++ old :: back).set front.length value by simp,
        List.getElem?_set_ne apart]
    · exact Value.child_array_unplaced (not_exists.mp placed) _ _

theorem child_unplaced (edits : change.Edits token (.array items) after)
    (unplaced : ∀ place, ArrayPlace.ofToken other ≠ .ok (.index place)) :
    after.child other = (Value.array items).child other := by
  cases edits <;> exact Value.child_array_unplaced unplaced _ _

end Edits

/-- What every pointer reads after a change at `parents` and then `token`, value or error.
The pointers are told apart by where they leave the way to that place. -/
structure Effect (change : Change) (parents : List String) (token : String)
    (document changed : Value) : Prop where
  container : ∃ before after, document.get parents = .ok before ∧ changed.get parents = .ok after
    ∧ change.Edits token before after
  /-- On the way: the same change, made at the rest of the way. -/
  above : ∀ front back, parents = front ++ back → ∃ whole edited,
    document.get front = .ok whole ∧ changed.get front = .ok edited
      ∧ change.applyAt whole ⟨back ++ [token]⟩ = .ok edited
  /-- Off the way before its end. -/
  aside : ∀ front step back other rest, parents = front ++ step :: back → other ≠ step →
    changed.get (front ++ other :: rest) = document.get (front ++ other :: rest)
  /-- Through another member. -/
  beside : ∀ members other rest, document.get parents = .ok (.object members) → other ≠ token →
    changed.get (parents ++ other :: rest) = document.get (parents ++ other :: rest)
  /-- Through a member that has been taken out. -/
  gone : ∀ members rest, change = .remove → document.get parents = .ok (.object members) →
    (Members.keys members).Nodup →
    changed.get (parents ++ token :: rest) = .error .pathNotFound
  /-- Through the new value. -/
  written : ∀ value rest, change.value? = some value →
    (∀ items, document.get parents = .ok (.array items) → token ≠ "-") →
    changed.get (parents ++ token :: rest) = value.get rest
  appended : ∀ value items rest, change = .add value →
    document.get parents = .ok (.array items) → token = "-" →
    (items.length : Int) ≤ greatestUInt64 →
    changed.get (parents ++ natText items.length :: rest) = value.get rest
  /-- Through an item beside an inserted one, which has moved up if it was not in front. -/
  inserted : ∀ value items place old rest, change = .add value →
    document.get parents = .ok (.array items) → ArrayPlace.ofToken token = .ok place →
    (skip (place.within items.length) old : Int) ≤ greatestUInt64 →
    changed.get (parents ++ natText (skip (place.within items.length) old) :: rest)
      = document.get (parents ++ natText old :: rest)
  /-- Through an item beside one taken out, which has moved down if it was not in front. -/
  taken : ∀ items index left rest, change = .remove →
    document.get parents = .ok (.array items) → ArrayPlace.ofToken token = .ok (.index index) →
    (skip index left : Int) ≤ greatestUInt64 →
    changed.get (parents ++ natText left :: rest)
      = document.get (parents ++ natText (skip index left) :: rest)
  /-- Through an item beside a replaced one. -/
  kept : ∀ value items other rest, change = .replace value →
    document.get parents = .ok (.array items) → other ≠ token →
    changed.get (parents ++ other :: rest) = document.get (parents ++ other :: rest)
  /-- Through an array by a token that names no place. -/
  unplaced : ∀ items other rest, document.get parents = .ok (.array items) →
    (∀ place, ArrayPlace.ofToken other ≠ .ok (.index place)) →
    changed.get (parents ++ other :: rest) = document.get (parents ++ other :: rest)

theorem effect_of_applyAt {change : Change} {document changed : Value} {parents : List String}
    {token : String} (applied : change.applyAt document ⟨parents ++ [token]⟩ = .ok changed) :
    change.Effect parents token document changed := by
  obtain ⟨before, after, found, edited, rfl⟩ := applyAt_eq_ok_iff.mp applied
  have edits := edits_of_edit edited
  have left : (document.set parents after).get parents = .ok after := Value.get_set found after
  -- Below the container both documents read what the container reads.
  have through {place other : String} (same : after.child place = before.child other)
      (rest : List String) : (document.set parents after).get (parents ++ place :: rest)
        = document.get (parents ++ other :: rest) := by
    rw [Value.get_append_of_ok left, Value.get_append_of_ok found]
    exact Value.get_cons_congr same rest
  have reaches {place : String} {value : Value} (written : after.child place = .ok value)
      (rest : List String) :
      (document.set parents after).get (parents ++ place :: rest) = value.get rest := by
    rw [Value.get_append_of_ok left, Value.get_cons, written]
    rfl
  have same {container : Value} (there : document.get parents = .ok container) :
      before = container := Except.ok.inj (found.symm.trans there)
  constructor
  case container => exact ⟨before, after, found, left, edits⟩
  case above =>
    rintro front back rfl
    obtain ⟨whole, reached, further⟩ := Value.get_append_eq_ok found
    exact ⟨whole, whole.set back after, reached, Value.get_set_above reached further after,
      applyAt_eq_ok_iff.mpr ⟨before, after, further, edited, rfl⟩⟩
  case aside =>
    rintro front step back other rest rfl differ
    exact Value.get_set_aside found differ after rest
  case beside =>
    intro members other rest there differ
    obtain rfl := same there
    exact through (edits.child_beside differ) rest
  case gone =>
    rintro members rest rfl there distinct
    obtain rfl := same there
    rw [Value.get_append_of_ok left, Value.get_cons, edits.child_gone distinct]
    rfl
  case written =>
    intro value rest new indexed
    refine reaches (edits.child_written new fun items array => indexed items ?_) rest
    rw [found, array]
  case appended =>
    rintro value items rest rfl there last bound
    obtain rfl := same there
    exact reaches (edits.child_appended last bound) rest
  case inserted =>
    rintro value items place old rest rfl there named bound
    obtain rfl := same there
    exact through (edits.child_inserted named bound) rest
  case taken =>
    rintro items index left rest rfl there named bound
    obtain rfl := same there
    exact through (edits.child_taken named bound) rest
  case kept =>
    rintro value items other rest rfl there differ
    obtain rfl := same there
    exact through (edits.child_kept differ) rest
  case unplaced =>
    intro items other rest there unplaced
    obtain rfl := same there
    exact through (edits.child_unplaced unplaced) rest

/-- A patch of one change that succeeds gives, at the root, the new value, and elsewhere a
document in which every pointer reads what `Effect` says. -/
theorem apply_determines_lookups {change : Change} {path : String} {target : Pointer}
    {document changed : Value} (parsed : Pointer.parse path = .ok target)
    (applied : Patch.apply [change.operation path] document = .ok changed) :
    (target = .root → change.value? = some changed)
      ∧ ∀ parents token, target.tokens = parents ++ [token] →
        change.Effect parents token document changed := by
  have made := (apply_single_iff parsed).mp applied
  constructor
  · rintro rfl
    exact applyAt_root made
  · intro parents token spelled
    obtain rfl : target = ⟨parents ++ [token]⟩ := congrArg Pointer.mk spelled
    exact effect_of_applyAt made

theorem apply_determines_lookups_insert :
    Pointer.parse "/a/1" = .ok ⟨["a", "1"]⟩
      ∧ Patch.apply [operation "/a/1" (.add (.bool true))]
          (.object [("a", .array [.null, .string "x"]), ("b", .null)])
        = .ok (.object [("a", .array [.null, .bool true, .string "x"]), ("b", .null)])
      ∧ Effect (.add (.bool true)) ["a"] "1"
          (.object [("a", .array [.null, .string "x"]), ("b", .null)])
          (.object [("a", .array [.null, .bool true, .string "x"]), ("b", .null)]) :=
  have parsed : Pointer.parse "/a/1" = .ok ⟨["a", "1"]⟩ := by rfl
  have applied : Patch.apply [operation "/a/1" (.add (.bool true))]
      (.object [("a", .array [.null, .string "x"]), ("b", .null)])
      = .ok (.object [("a", .array [.null, .bool true, .string "x"]), ("b", .null)]) := by rfl
  ⟨parsed, applied, (apply_determines_lookups parsed applied).2 ["a"] "1" rfl⟩

end Change

end JsonTree
