import JsonTree.Proofs.Patch.Undoing

/-! Moves to places below their own source.

The source is taken out before the target is looked for, so a way that goes through the source
goes on only where something else has come to stand in its place. That is so for an item of
an array with another one behind it, and for nothing else: the moved item then ends up inside
the next one. Nothing is ever moved into itself.
-/

set_option autoImplicit false

namespace JsonTree

namespace Value

variable {document inner new changed value remaining : Value} {front parents below : List String}
  {token : String}

theorem addAt_append_iff (proper : below ≠ []) :
    document.addAt ⟨front ++ below⟩ new = .ok changed
      ↔ ∃ inner edited, document.get front = .ok inner ∧ inner.addAt ⟨below⟩ new = .ok edited
        ∧ document.set front edited = changed := by
  obtain ⟨between, last, rfl⟩ := List.eq_nil_or_concat below |>.resolve_left proper
  rw [List.concat_eq_append, ← List.append_assoc, addAt_concat_iff]
  constructor
  · rintro ⟨container, edited, found, added, rfl⟩
    obtain ⟨inner, reached, further⟩ := get_append_eq_ok found
    exact ⟨inner, inner.set between edited, reached,
      addAt_concat_iff.mpr ⟨container, edited, further, added, rfl⟩,
      (set_append reached between edited).symm⟩
  · rintro ⟨inner, _, reached, addedThere, rfl⟩
    obtain ⟨container, edited, further, added, rfl⟩ := addAt_concat_iff.mp addedThere
    exact ⟨container, edited, (get_append_of_ok reached between).trans further, added,
      set_append reached between edited⟩

/-- What a container is made of when a child is taken out of it and its token still leads to
one: an array, and the next item is there now. -/
theorem exists_next_of_removeMember {container left next : Value}
    (distinct : container.DistinctKeys) (removed : container.removeMember token = .ok (value, left))
    (found : left.child token = .ok next) :
    ∃ front back, container = array (front ++ value :: next :: back)
      ∧ left = array (front ++ next :: back)
      ∧ ArrayPlace.ofToken token = .ok (.index front.length) := by
  have there := child_of_removeMember removed
  cases child_eq_ok_iff.mp there with
  | @member front back absent =>
    -- Keys are distinct, so no other member answers to the key.
    have keys := (distinctKeys_object.mp distinct).1
    rw [Members.keys_append, Members.keys_cons, List.nodup_middle, List.nodup_cons,
      ← Members.keys_append] at keys
    rw [removeMember_member absent] at removed
    obtain ⟨-, rfl⟩ := Prod.mk.inj (Except.ok.inj removed)
    exact absurd (mem_keys_of_child found) keys.1
  | item front rest named =>
    rw [removeMember_item named] at removed
    obtain ⟨-, rfl⟩ := Prod.mk.inj (Except.ok.inj removed)
    generalize spelled : front ++ rest = items at found
    cases child_eq_ok_iff.mp found with
    | item before back again =>
      have same := ArrayPlace.index.inj (Except.ok.inj (named.symm.trans again))
      obtain ⟨rfl, rfl⟩ := List.append_inj spelled same
      exact ⟨front, back, rfl, rfl, named⟩

section

variable {container next : Value} {before back : List Value}

-- The document after the removal of an item, at the place where the item was.

theorem get_next (found : document.get parents = .ok container)
    (named : ArrayPlace.ofToken token = .ok (.index before.length)) :
    (document.set parents (array (before ++ next :: back))).get (parents ++ [token])
      = .ok next := by
  rw [get_concat, get_set found]
  exact child_eq_ok_iff.mpr (.item before back named)

theorem set_next (found : document.get parents = .ok container)
    (named : ArrayPlace.ofToken token = .ok (.index before.length)) (edited : Value) :
    (document.set parents (array (before ++ next :: back))).set (parents ++ [token]) edited
      = document.set parents (array (before ++ edited :: back)) := by
  have there : (array (before ++ next :: back)).child token = .ok next :=
    child_eq_ok_iff.mpr (.item before back named)
  rw [set_concat (get_set found _) there, setChild_item named, set_set found]

end

end Value

/-- An item is taken out of an array, the next one takes its place, and the item is added to
that one, by what is left of the way. -/
inductive MovedIntoNext (document : Value) (below : List String) : Pointer → Value → Prop where
  | intro {parents : List String} {token : String} {front back : List Value}
      {value next edited : Value} :
      document.get parents = .ok (.array (front ++ value :: next :: back)) →
      ArrayPlace.ofToken token = .ok (.index front.length) →
      next.addAt ⟨below⟩ value = .ok edited →
      MovedIntoNext document below ⟨parents ++ [token]⟩
        (document.set parents (.array (front ++ edited :: back)))

/-- Where the pointer leads to an item of an array, it is the last one. -/
def NoneBehind (document : Value) (origin : Pointer) : Prop :=
  ∀ parents token items index, origin.tokens = parents ++ [token] →
    document.get parents = .ok (.array items) →
    ArrayPlace.ofToken token = .ok (.index index) → items.length ≤ index + 1

theorem not_movedIntoNext {document changed : Value} {origin : Pointer} {below : List String}
    (last : NoneBehind document origin) : ¬ MovedIntoNext document below origin changed := by
  rintro @⟨parents, token, front, back, value, next, edited, found, named, -⟩
  have short := last parents token _ _ rfl found named
  rw [List.length_append, List.length_cons, List.length_cons] at short
  omega

namespace Patch

variable {source path : String} {origin target : Pointer} {below : List String}
  {document changed : Value}

/-- A move below its own source succeeds just when the source is an item with another one
behind it, to which it can be added. -/
theorem apply_move_below_iff (sourceParsed : Pointer.parse source = .ok origin)
    (parsed : Pointer.parse path = .ok ⟨origin.tokens ++ below⟩) (proper : below ≠ [])
    (distinct : document.DistinctKeys) :
    apply [.move source path] document = .ok changed
      ↔ MovedIntoNext document below origin changed := by
  rw [apply_move_iff sourceParsed parsed]
  constructor
  · rintro ⟨value, remaining, removed, added⟩
    rcases origin.root_or_concat with rfl | ⟨parents, token, rfl⟩
    · contradiction
    · obtain ⟨container, left, found, taken, rfl⟩ := Value.removeAt_concat_iff.mp removed
      obtain ⟨next, edited, reached, addedThere, rfl⟩ := (Value.addAt_append_iff proper).mp added
      -- The place below the source begins with the token of the source, and that leads on after the
      -- removal.
      have step : left.child token = .ok next := by
        rw [Value.get_concat, Value.get_set found] at reached
        exact reached
      obtain ⟨front, back, rfl, rfl, named⟩ :=
        Value.exists_next_of_removeMember (distinct.get found) taken step
      rw [Value.set_next found named]
      exact .intro found named addedThere
  · rintro @⟨parents, token, front, back, value, next, edited, found, named, added⟩
    refine ⟨value, document.set parents (.array (front ++ next :: back)), ?_, ?_⟩
    · exact Value.removeAt_concat_iff.mpr ⟨_, _, found, Value.removeMember_item named value _, rfl⟩
    · exact (Value.addAt_append_iff proper).mpr
        ⟨next, edited, Value.get_next found named, added, Value.set_next found named edited⟩

/-- A move to a place below its own source fails wherever no item stands behind the source. With
one behind it, the move goes just when the value can be added to that next item. -/
theorem move_below_source (sourceParsed : Pointer.parse source = .ok origin)
    (parsed : Pointer.parse path = .ok target) (within : origin.tokens <+: target.tokens)
    (proper : origin.tokens ≠ target.tokens) (distinct : document.DistinctKeys) :
    (NoneBehind document origin → ∃ error, apply [.move source path] document = .error error)
    ∧ ∀ changed, apply [.move source path] document = .ok changed
        ↔ ∃ below, target.tokens = origin.tokens ++ below
          ∧ MovedIntoNext document below origin changed := by
  obtain ⟨below, spelled⟩ := within
  have further : below ≠ [] := by
    rintro rfl
    exact proper (by simpa using spelled)
  have way : target = ⟨origin.tokens ++ below⟩ := by rw [spelled]
  have moves : ∀ changed, apply [.move source path] document = .ok changed
      ↔ MovedIntoNext document below origin changed :=
    fun changed => apply_move_below_iff sourceParsed (way ▸ parsed) further distinct
  refine ⟨fun last => ?_, fun changed => ?_⟩
  · cases outcome : apply [.move source path] document with
    | error error => exact ⟨error, rfl⟩
    | ok changed => exact absurd ((moves changed).mp outcome) (not_movedIntoNext last)
  · rw [moves changed]
    constructor
    · exact fun moved => ⟨below, spelled.symm, moved⟩
    · rintro ⟨again, same, moved⟩
      rwa [List.append_cancel_left (spelled.trans same)]

theorem move_below_source_last_item :
    ∃ error, apply [.move "/a/1" "/a/1/0"]
        (.object [("a", .array [.array [.null], .array [.bool true]])]) = .error error := by
  have last : NoneBehind (.object [("a", .array [.array [.null], .array [.bool true]])])
      ⟨["a", "1"]⟩ := by
    intro parents token items index spelled found named
    have split : ["a"] ++ ["1"] = parents ++ [token] := spelled
    obtain ⟨rfl, same⟩ := List.append_inj' split rfl
    obtain rfl : "1" = token := List.head_eq_of_cons_eq same
    cases found
    cases named
    exact Nat.le_refl 2
  have sourceParsed : Pointer.parse "/a/1" = .ok ⟨["a", "1"]⟩ := rfl
  have parsed : Pointer.parse "/a/1/0" = .ok ⟨["a", "1", "0"]⟩ := rfl
  exact (move_below_source sourceParsed parsed ⟨["0"], rfl⟩ (by decide) (by decide)).1 last

/-- The first of two items is moved into the second one by a move into itself. -/
theorem move_below_source_next_item :
    Pointer.parse "/0" = .ok ⟨["0"]⟩ ∧ Pointer.parse "/0/0" = .ok ⟨["0", "0"]⟩
    ∧ ["0"] <+: ["0", "0"] ∧ ["0"] ≠ ["0", "0"]
    ∧ apply [.move "/0" "/0/0"]
        (.array [.array [.number (.ofInt 1)], .array [.number (.ofInt 2)]])
      = .ok (.array [.array [.array [.number (.ofInt 1)], .number (.ofInt 2)]]) :=
  ⟨rfl, rfl, ⟨["0"], rfl⟩, by decide, rfl⟩

end Patch

end JsonTree
