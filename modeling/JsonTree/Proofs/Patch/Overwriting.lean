import JsonTree.Proofs.Patch.Undoing

/-! Replacing is a lawful write.

Where a pointer leads to a value, replacing that value is a plain write, so it has the laws of
writes: the last one stays, writing what is there changes nothing, and pointers of which
neither is on the way to the other do not get into each other's way. Taking the value out and
adding another does the same but for the place of a member.
-/

set_option autoImplicit false

namespace JsonTree

namespace Value

variable {document container old : Value} {target : Pointer} {token : String}

theorem replaceMember_of_child (found : container.child token = .ok old) (new : Value) :
    container.replaceMember token new = .ok (container.setChild token new) := by
  cases container with
  | object members =>
    have held := mem_keys_of_child found
    rw [setChild_object held, replaceMember, if_pos (Members.isSome_get?_iff.mpr held)]
  | array items =>
    obtain ⟨index, place⟩ := existingIndex_of_child found
    simp only [replaceMember, setChild, place]
  | _ => contradiction

theorem child_of_get_concat {parents : List String}
    (found : document.get (parents ++ [token]) = .ok old) :
    ∃ container, document.get parents = .ok container ∧ container.child token = .ok old := by
  rw [get_concat] at found
  exact bind_eq_ok_iff.mp found

theorem replaceAt_eq_set (found : target.get document = .ok old) (new : Value) :
    document.replaceAt target new = .ok (document.set target.tokens new) := by
  rcases target.root_or_concat with rfl | ⟨parents, token, rfl⟩
  · rfl
  · obtain ⟨container, enclosing, there⟩ := child_of_get_concat found
    refine (Change.applyAt_eq_ok_iff : (Change.replace new).applyAt document _ = _ ↔ _).mpr ?_
    exact ⟨container, _, enclosing, replaceMember_of_child there new,
      (set_concat enclosing there new).symm⟩

end Value

namespace Patch

section

variable {path : String} {target : Pointer} {document old : Value}

theorem apply_replace (parsed : Pointer.parse path = .ok target)
    (found : target.get document = .ok old) (new : Value) :
    apply [.replace path new] document = .ok (document.set target.tokens new) :=
  (Change.apply_single_iff parsed : apply [(Change.replace new).operation path] _ = _ ↔ _).mpr
    (Value.replaceAt_eq_set found new)

/-- A value that is taken out and another one that is added stand in an array as if the one
had replaced the other, and in an object up to the order of members. -/
theorem apply_renew (parsed : Pointer.parse path = .ok target) (notRoot : target ≠ .root)
    (distinct : document.DistinctKeys) (found : target.get document = .ok old) (new : Value) :
    ∃ renewed, apply [.remove path, .add path new] document = .ok renewed
      ∧ (document.set target.tokens new).MembersMoved renewed
      ∧ ∀ parent items, target.parent? = some parent → parent.get document = .ok (.array items) →
        renewed = document.set target.tokens new := by
  obtain ⟨remaining, removed⟩ := Operation.removeAt_eq_ok_iff.mpr ⟨found, notRoot⟩
  rcases target.root_or_concat with rfl | ⟨parents, token, rfl⟩
  · contradiction
  · obtain ⟨container, enclosing, there, added⟩ := Value.addAt_of_removeAt distinct removed
    rw [Value.set_concat enclosing there]
    refine ⟨_, apply_pair_eq_ok_iff.mpr ⟨remaining, (apply_remove_iff parsed).mpr ⟨old, removed⟩,
      (apply_add_iff parsed).mpr (added new)⟩, ?_, ?_⟩
    · exact (Value.membersMoved_renewChild there new).set enclosing
    · intro parent items outside held
      obtain rfl := Pointer.parent_of_concat outside
      obtain rfl := Except.ok.inj (enclosing.symm.trans held)
      rw [Value.renewChild_array]

end

/-- Where two pointers lead to values, what replaces one of them is found there. The last of two
replacements at it stays, replacing a value by itself changes nothing, and replacements at both
may be exchanged if they are apart. A removal and an addition do what a replacement does but for
the order of members. -/
theorem replacements_lawful {path other : String} {target beside : Pointer}
    {document old sibling : Value} (parsed : Pointer.parse path = .ok target)
    (otherParsed : Pointer.parse other = .ok beside) (found : target.get document = .ok old)
    (foundBeside : beside.get document = .ok sibling) :
    (∀ new, ∃ written, apply [.replace path new] document = .ok written
        ∧ target.get written = .ok new)
      ∧ (∀ first second, ∃ written,
        apply [.replace path first, .replace path second] document = .ok written
          ∧ apply [.replace path second] document = .ok written)
      ∧ apply [.replace path old] document = .ok document
      ∧ (target.Apart beside → ∀ first second, ∃ written,
        apply [.replace path first, .replace other second] document = .ok written
          ∧ apply [.replace other second, .replace path first] document = .ok written)
      ∧ (target ≠ .root → document.DistinctKeys → ∀ new : Value, new.DistinctKeys →
        ∃ renewed replaced, apply [.remove path, .add path new] document = .ok renewed
          ∧ apply [.replace path new] document = .ok replaced
          ∧ replaced.equals .ordered renewed = true
          ∧ ∀ parent items, target.parent? = some parent →
            parent.get document = .ok (.array items) → renewed = replaced) := by
  refine ⟨?_, ?_, ?_, ?_, ?_⟩
  · exact fun new => ⟨_, apply_replace parsed found new, Value.get_set found new⟩
  · intro first second
    refine ⟨_, apply_pair_eq_ok_iff.mpr ⟨_, apply_replace parsed found first, ?_⟩,
      apply_replace parsed found second⟩
    rw [apply_replace parsed (Value.get_set found first), Value.set_set found]
  · rw [apply_replace parsed found, Value.set_get found]
  · intro apart first second
    -- Each value is still there after the other has been replaced.
    have kept := (apart.get_set found first).trans foundBeside
    have keptBeside := (apart.symm.get_set foundBeside second).trans found
    refine ⟨_, apply_pair_eq_ok_iff.mpr ⟨_, apply_replace parsed found first,
      apply_replace otherParsed kept second⟩, apply_pair_eq_ok_iff.mpr ⟨_,
      apply_replace otherParsed foundBeside second, ?_⟩⟩
    rw [apply_replace parsed keptBeside, apart.set_comm found foundBeside]
  · intro notRoot distinct new newDistinct
    obtain ⟨renewed, done, moved, array⟩ := apply_renew parsed notRoot distinct found new
    exact ⟨renewed, _, done, apply_replace parsed found new,
      moved.equals .ordered (distinct.set found newDistinct), array⟩

theorem replacements_lawful_apart :
    let document : Value := .object [("a", .array [.null, .object [("x", .null), ("y", .null)]])]
    let replaced : Value :=
      .object [("a", .array [.null, .object [("x", .bool true), ("y", .null)]])]
    let exchanged : Value :=
      .object [("a", .array [.array [], .object [("x", .bool true), ("y", .null)]])]
    let renewed : Value :=
      .object [("a", .array [.null, .object [("y", .null), ("x", .bool true)]])]
    let target : Pointer := ⟨["a", "1", "x"]⟩
    let beside : Pointer := ⟨["a", "0"]⟩
    Pointer.parse "/a/1/x" = .ok target ∧ Pointer.parse "/a/0" = .ok beside
      ∧ target.get document = .ok .null ∧ beside.get document = .ok .null
      ∧ target.Apart beside ∧ document.DistinctKeys
      ∧ apply [.replace "/a/1/x" (.bool true)] document = .ok replaced
      ∧ target.get replaced = .ok (.bool true)
      ∧ apply [.replace "/a/1/x" (.bool true), .replace "/a/0" (.array [])] document = .ok exchanged
      ∧ apply [.replace "/a/0" (.array []), .replace "/a/1/x" (.bool true)] document = .ok exchanged
      ∧ apply [.remove "/a/1/x", .add "/a/1/x" (.bool true)] document = .ok renewed
      ∧ replaced.equals .ordered renewed = true := by
  intro document replaced exchanged renewed target beside
  have parsed : Pointer.parse "/a/1/x" = .ok target := by rfl
  have otherParsed : Pointer.parse "/a/0" = .ok beside := by rfl
  have found : target.get document = .ok .null := by rfl
  have foundBeside : beside.get document = .ok .null := by rfl
  have apart : target.Apart beside := by decide
  have distinct : document.DistinctKeys := by decide
  have once : apply [.replace "/a/1/x" (.bool true)] document = .ok replaced := by rfl
  have both : apply [.replace "/a/1/x" (.bool true), .replace "/a/0" (.array [])] document
      = .ok exchanged := by rfl
  have anew : apply [.remove "/a/1/x", .add "/a/1/x" (.bool true)] document = .ok renewed := by rfl
  obtain ⟨put, -, -, exchange, renew⟩ := replacements_lawful parsed otherParsed found foundBeside
  obtain ⟨written, done, back⟩ := put (.bool true)
  obtain rfl := Except.ok.inj (once.symm.trans done)
  obtain ⟨written, done, reversed⟩ := exchange apart (.bool true) (.array [])
  obtain rfl := Except.ok.inj (both.symm.trans done)
  obtain ⟨written, other, done, doneAtOnce, equal, -⟩ :=
    renew (by decide) distinct (.bool true) (by decide)
  obtain rfl := Except.ok.inj (anew.symm.trans done)
  obtain rfl := Except.ok.inj (once.symm.trans doneAtOnce)
  exact ⟨parsed, otherParsed, found, foundBeside, apart, distinct, once, back, both, reversed, anew,
    equal⟩

end Patch

end JsonTree
