import JsonTree.Patch.Apply
import JsonTree.Proofs.Value.Likeness

/-! Patching sees no difference that equality does not see.

Two runs over values that are alike stay in step: every function gives results that are
alike, or the same error in both runs. What a run does next is decided by kinds, by counts
of items and by which keys are there, and alike values have these in common.
-/

set_option autoImplicit false

namespace JsonTree

/-- Two runs come to related results, or fail with one error. -/
inductive InStep {ε α β : Type} (related : α → β → Prop) : Except ε α → Except ε β → Prop where
  | ok {left : α} {right : β} : related left right → InStep related (.ok left) (.ok right)
  | error (failure : ε) : InStep related (.error failure) (.error failure)

section

variable {ε ζ α β γ δ : Type} {related : α → β → Prop} {later : γ → δ → Prop}
  {left : Except ε α} {right : Except ε β}

theorem InStep.bind (step : InStep related left right) {leftNext : α → Except ε γ}
    {rightNext : β → Except ε δ}
    (next : ∀ first second, related first second →
      InStep later (leftNext first) (rightNext second)) :
    InStep later (left >>= leftNext) (right >>= rightNext) := by
  cases step with
  | ok pair => exact next _ _ pair
  | error failure => exact .error failure

theorem InStep.mapError (step : InStep related left right) (change : ε → ζ) :
    InStep related (left.mapError change) (right.mapError change) := by
  cases step with
  | ok pair => exact .ok pair
  | error failure => exact .error (change failure)

end

namespace Value

theorem Alike.shape {left right : Value} (alike : Alike left right) :
    (left.isContainer = false ∧ right.isContainer = false)
      ∨ (∃ lefts rights, left = array lefts ∧ right = array rights
        ∧ List.Forall₂ Alike lefts rights)
      ∨ ∃ lefts rights : Members, left = object lefts ∧ right = object rights
        ∧ (Members.keys lefts).Nodup ∧ (Members.keys rights).Nodup
        ∧ ∀ key, Option.Rel Alike (lefts.get? key) (rights.get? key) := by
  cases left with
  | array lefts =>
    obtain ⟨rights, rfl, each⟩ := alike.array_left
    exact .inr (.inl ⟨lefts, rights, rfl, rfl, each⟩)
  | object lefts =>
    obtain ⟨rights, rfl, parts⟩ := alike.object_left
    exact .inr (.inr ⟨lefts, rights, rfl, rfl, parts⟩)
  | number value =>
    obtain ⟨other, rfl⟩ := alike.number_left
    exact .inl ⟨rfl, rfl⟩
  | null | bool | string =>
    obtain rfl := alike.eq_of_leaf rfl rfl
    exact .inl ⟨rfl, rfl⟩

theorem alike_put {lefts rights : Members} (leftKeys : (Members.keys lefts).Nodup)
    (rightKeys : (Members.keys rights).Nodup)
    (each : ∀ key, Option.Rel Alike (lefts.get? key) (rights.get? key)) (token : String)
    {left right : Value} (new : Alike left right) :
    Alike (object (Members.put token left lefts)) (object (Members.put token right rights)) := by
  refine alike_object.mpr ⟨Members.nodup_put leftKeys, Members.nodup_put rightKeys, fun key => ?_⟩
  by_cases same : token = key
  · rw [same, Members.get?_put_self, Members.get?_put_self]
    exact .some new
  · rw [Members.get?_put_of_ne same, Members.get?_put_of_ne same]
    exact each key

theorem alike_erase {lefts rights : Members} (leftKeys : (Members.keys lefts).Nodup)
    (rightKeys : (Members.keys rights).Nodup)
    (each : ∀ key, Option.Rel Alike (lefts.get? key) (rights.get? key)) (token : String) :
    Alike (object (Members.erase token lefts)) (object (Members.erase token rights)) := by
  refine alike_object.mpr ⟨?_, ?_, fun key => ?_⟩
  · rw [Members.keys_erase]
    exact leftKeys.erase token
  · rw [Members.keys_erase]
    exact rightKeys.erase token
  · by_cases same : key = token
    · rw [same, Members.get?_erase_self leftKeys, Members.get?_erase_self rightKeys]
      exact .none
    · rw [Members.get?_erase_of_ne same, Members.get?_erase_of_ne same]
      exact each key

theorem child_leaf {value : Value} (leaf : value.isContainer = false) (token : String) :
    value.child token = .error (.typeMismatch value.kind) := by
  cases value <;> first | rfl | contradiction

theorem setChild_leaf {value : Value} (leaf : value.isContainer = false) (token : String)
    (new : Value) : value.setChild token new = value := by
  cases value <;> first | rfl | contradiction

theorem addMember_leaf {value : Value} (leaf : value.isContainer = false) (token : String)
    (new : Value) : value.addMember token new = .error (.typeMismatch (.addTo value.kind)) := by
  cases value <;> first | rfl | contradiction

theorem removeMember_leaf {value : Value} (leaf : value.isContainer = false) (token : String) :
    value.removeMember token = .error (.typeMismatch (.removeFrom value.kind)) := by
  cases value <;> first | rfl | contradiction

theorem replaceMember_leaf {value : Value} (leaf : value.isContainer = false) (token : String)
    (new : Value) :
    value.replaceMember token new = .error (.typeMismatch (.replaceIn value.kind)) := by
  cases value <;> first | rfl | contradiction

variable {left right leftNew rightNew : Value}

theorem Alike.child (alike : Alike left right) (token : String) :
    InStep Alike (left.child token) (right.child token) := by
  rcases alike.shape with ⟨leftLeaf, rightLeaf⟩ | ⟨lefts, rights, rfl, rfl, each⟩
    | ⟨lefts, rights, rfl, rfl, -, -, each⟩
  · rw [child_leaf leftLeaf, child_leaf rightLeaf, alike.kind]
    exact .error _
  · simp only [Value.child, each.length_eq]
    cases existingIndex token rights.length with
    | error failure => exact .error failure
    | ok index =>
      rcases rel_cases (forall₂_getElem? each index) with ⟨leftGone, rightGone⟩
        | ⟨_, _, leftHeld, rightHeld, inner⟩
      · simp only [leftGone, rightGone]
        exact .error _
      · simp only [leftHeld, rightHeld]
        exact .ok inner
  · rcases rel_cases (each token) with ⟨leftGone, rightGone⟩ | ⟨_, _, leftHeld, rightHeld, inner⟩
    · simp only [Value.child, leftGone, rightGone]
      exact .error _
    · simp only [Value.child, leftHeld, rightHeld]
      exact .ok inner

theorem Alike.setChild (alike : Alike left right) (token : String) (new : Alike leftNew rightNew) :
    Alike (left.setChild token leftNew) (right.setChild token rightNew) := by
  rcases alike.shape with ⟨leftLeaf, rightLeaf⟩ | ⟨lefts, rights, rfl, rfl, each⟩
    | ⟨lefts, rights, rfl, rfl, leftKeys, rightKeys, each⟩
  · rw [setChild_leaf leftLeaf, setChild_leaf rightLeaf]
    exact alike
  · simp only [Value.setChild, each.length_eq]
    cases existingIndex token rights.length with
    | error failure => exact alike
    | ok index => exact alike_array.mpr (forall₂_set each new index)
  · simp only [Value.setChild, rel_isSome (each token)]
    split
    · exact alike_put leftKeys rightKeys each token new
    · exact alike

theorem Alike.get (alike : Alike left right) (tokens : List String) :
    InStep Alike (left.get tokens) (right.get tokens) := by
  induction tokens generalizing left right with
  | nil => exact .ok alike
  | cons token rest ih => exact (alike.child token).bind fun _ _ inner => ih inner

theorem Alike.set (alike : Alike left right) (tokens : List String)
    (new : Alike leftNew rightNew) :
    Alike (left.set tokens leftNew) (right.set tokens rightNew) := by
  induction tokens generalizing left right with
  | nil => exact new
  | cons token rest ih =>
    have step := alike.child token
    rw [Value.set, Value.set]
    generalize left.child token = first at step ⊢
    generalize right.child token = second at step ⊢
    cases step with
    | ok inner => exact alike.setChild token (ih inner)
    | error failure => exact alike

theorem Alike.locate (alike : Alike left right) (tokens : List String) :
    InStep Alike (left.locate tokens) (right.locate tokens) :=
  (alike.get tokens).mapError PatchFault.ofLookup

theorem Alike.addMember (alike : Alike left right) (token : String)
    (new : Alike leftNew rightNew) :
    InStep Alike (left.addMember token leftNew) (right.addMember token rightNew) := by
  rcases alike.shape with ⟨leftLeaf, rightLeaf⟩ | ⟨lefts, rights, rfl, rfl, each⟩
    | ⟨lefts, rights, rfl, rfl, leftKeys, rightKeys, each⟩
  · rw [addMember_leaf leftLeaf, addMember_leaf rightLeaf, alike.kind]
    exact .error _
  · simp only [Value.addMember, each.length_eq]
    cases ArrayPlace.ofToken token with
    | error failure => exact .error _
    | ok place =>
      cases place with
      | append => exact .ok (alike_array.mpr (List.rel_append each (.cons new .nil)))
      | index index =>
        dsimp only
        split
        · exact .ok (alike_array.mpr (forall₂_insertIdx each new index))
        · exact .error _
  · exact .ok (alike_put leftKeys rightKeys each token new)

theorem Alike.removeMember (alike : Alike left right) (token : String) :
    InStep (fun first second => Alike first.1 second.1 ∧ Alike first.2 second.2)
      (left.removeMember token) (right.removeMember token) := by
  rcases alike.shape with ⟨leftLeaf, rightLeaf⟩ | ⟨lefts, rights, rfl, rfl, each⟩
    | ⟨lefts, rights, rfl, rfl, leftKeys, rightKeys, each⟩
  · rw [removeMember_leaf leftLeaf, removeMember_leaf rightLeaf, alike.kind]
    exact .error _
  · simp only [Value.removeMember, each.length_eq]
    cases existingIndex token rights.length with
    | error failure => exact .error _
    | ok index =>
      rcases rel_cases (forall₂_getElem? each index) with ⟨leftGone, rightGone⟩
        | ⟨_, _, leftHeld, rightHeld, taken⟩
      · simp only [leftGone, rightGone]
        exact .error _
      · simp only [leftHeld, rightHeld]
        exact .ok ⟨taken, alike_array.mpr (forall₂_eraseIdx each index)⟩
  · rcases rel_cases (each token) with ⟨leftGone, rightGone⟩ | ⟨_, _, leftHeld, rightHeld, taken⟩
    · simp only [Value.removeMember, leftGone, rightGone]
      exact .error _
    · simp only [Value.removeMember, leftHeld, rightHeld]
      exact .ok ⟨taken, alike_erase leftKeys rightKeys each token⟩

theorem Alike.replaceMember (alike : Alike left right) (token : String)
    (new : Alike leftNew rightNew) :
    InStep Alike (left.replaceMember token leftNew) (right.replaceMember token rightNew) := by
  rcases alike.shape with ⟨leftLeaf, rightLeaf⟩ | ⟨lefts, rights, rfl, rfl, each⟩
    | ⟨lefts, rights, rfl, rfl, leftKeys, rightKeys, each⟩
  · rw [replaceMember_leaf leftLeaf, replaceMember_leaf rightLeaf, alike.kind]
    exact .error _
  · simp only [Value.replaceMember, each.length_eq]
    cases existingIndex token rights.length with
    | error failure => exact .error _
    | ok index => exact .ok (alike_array.mpr (forall₂_set each new index))
  · simp only [Value.replaceMember, rel_isSome (each token)]
    split
    · exact .ok (alike_put leftKeys rightKeys each token new)
    · exact .error _

theorem Alike.addAt (alike : Alike left right) (target : Pointer)
    (new : Alike leftNew rightNew) :
    InStep Alike (left.addAt target leftNew) (right.addAt target rightNew) := by
  unfold Value.addAt
  cases target.last? with
  | none => exact .ok new
  | some token =>
    simp only [enter_bind]
    refine (alike.locate _).bind fun _ _ container => ?_
    exact (container.addMember token new).bind fun _ _ changed => .ok (alike.set _ changed)

theorem Alike.removeAt (alike : Alike left right) (target : Pointer) :
    InStep (fun first second => Alike first.1 second.1 ∧ Alike first.2 second.2)
      (left.removeAt target) (right.removeAt target) := by
  unfold Value.removeAt
  cases target.last? with
  | none => exact .error _
  | some token =>
    simp only [enter_bind]
    refine (alike.locate _).bind fun _ _ container => ?_
    refine (container.removeMember token).bind fun _ _ parts => ?_
    exact .ok ⟨parts.1, alike.set _ parts.2⟩

theorem Alike.replaceAt (alike : Alike left right) (target : Pointer)
    (new : Alike leftNew rightNew) :
    InStep Alike (left.replaceAt target leftNew) (right.replaceAt target rightNew) := by
  unfold Value.replaceAt
  cases target.last? with
  | none => exact .ok new
  | some token =>
    simp only [enter_bind]
    refine (alike.locate _).bind fun _ _ container => ?_
    exact (container.replaceMember token new).bind fun _ _ changed => .ok (alike.set _ changed)

end Value

inductive Operation.Alike : Operation → Operation → Prop where
  | add (path : String) {left right : Value} : Value.Alike left right →
      Alike (.add path left) (.add path right)
  | remove (path : String) : Alike (.remove path) (.remove path)
  | replace (path : String) {left right : Value} : Value.Alike left right →
      Alike (.replace path left) (.replace path right)
  | move (source path : String) : Alike (.move source path) (.move source path)
  | copy (source path : String) : Alike (.copy source path) (.copy source path)
  | test (path : String) {left right : Value} : Value.Alike left right →
      Alike (.test path left) (.test path right)

/-- One operation keeps the runs in step. -/
theorem Operation.Alike.apply {first second : Operation} (operations : Alike first second)
    {left right : Value} (documents : Value.Alike left right) :
    InStep Value.Alike (first.apply left) (second.apply right) := by
  have pointer (text : String) : InStep (· = ·) (readPointer text) (readPointer text) := by
    cases readPointer text with
    | ok pointer => exact .ok rfl
    | error failure => exact .error failure
  have placed {α : Type} {related : α → α → Prop} {path : String}
      {left right : Except PatchFault α} (step : InStep related left right) :
      InStep related (placeFault path left) (placeFault path right) := step.mapError _
  -- Pointers are read from the same texts, so the runs differ in documents and values alone.
  cases operations with
  | add path values =>
    refine (pointer path).bind ?_
    rintro target _ rfl
    exact placed (documents.addAt target values)
  | remove path =>
    refine (pointer path).bind ?_
    rintro target _ rfl
    exact (placed (documents.removeAt target)).bind fun _ _ parts => .ok parts.2
  | replace path values =>
    refine (pointer path).bind ?_
    rintro target _ rfl
    exact placed (documents.replaceAt target values)
  | move source path =>
    refine (pointer source).bind ?_
    rintro origin _ rfl
    refine (pointer path).bind ?_
    rintro target _ rfl
    exact (placed (documents.removeAt origin)).bind fun _ _ parts =>
      placed (parts.2.addAt target parts.1)
  | copy source path =>
    refine (pointer source).bind ?_
    rintro origin _ rfl
    refine (pointer path).bind ?_
    rintro target _ rfl
    exact (placed (documents.locate origin.tokens)).bind fun _ _ value =>
      placed (documents.addAt target value)
  | test path values =>
    refine (pointer path).bind ?_
    rintro target _ rfl
    refine (placed (documents.locate target.tokens)).bind fun _ _ actual => ?_
    rw [actual.equals_eq values]
    split
    · exact .ok documents
    · exact .error _

namespace Patch

variable {first second : List Operation} {left right : Value}

theorem applyFrom_inStep (operations : List.Forall₂ Operation.Alike first second)
    (documents : left.Alike right) (index : Nat) :
    InStep Value.Alike (applyFrom index first left) (applyFrom index second right) := by
  induction operations generalizing left right index with
  | nil => exact .ok documents
  | cons operation _ ih =>
    have step := operation.apply documents
    rw [applyFrom, applyFrom]
    generalize Operation.apply _ left = leftEnd at step ⊢
    generalize Operation.apply _ right = rightEnd at step ⊢
    cases step with
    | ok changed => exact ih changed (index + 1)
    | error failure => exact .error _

/-- Patches that differ in nothing that equality sees, applied to documents that do not
either, give equal results or fail with the same error. -/
theorem apply_respects_equality (operations : List.Forall₂ Operation.Alike first second)
    (documents : left.Alike right) :
    (∃ changed other, apply first left = .ok changed ∧ apply second right = .ok other
        ∧ changed.equals .ordered other = true)
      ∨ ∃ failure, apply first left = .error failure ∧ apply second right = .error failure := by
  have step := applyFrom_inStep operations documents 0
  unfold apply
  generalize applyFrom 0 first left = leftEnd at step ⊢
  generalize applyFrom 0 second right = rightEnd at step ⊢
  cases step with
  | ok changed => exact .inl ⟨_, _, rfl, rfl, changed.equal⟩
  | error failure => exact .inr ⟨failure, rfl, rfl⟩

/-- Other spellings and another order of keys, seen by a move, a copy and a test. -/
theorem apply_respects_equality_spellings :
    let one : Value := .number ⟨false, 1, [], none⟩
    let oneZero : Value := .number ⟨false, 1, [0], none⟩
    let hundred : Value := .number ⟨false, 100, [], none⟩
    let power : Value := .number ⟨false, 1, [], some ⟨false, 2, []⟩⟩
    let left : Value := .object [("a", oneZero), ("b", .array [.null, .object [("x", power)]])]
    let right : Value := .object [("b", .array [.null, .object [("x", hundred)]]), ("a", one)]
    let patch (tested added : Value) : List Operation := [.move "/a" "/b/-", .copy "/b/1" "/c",
      .test "/c" (.object [("x", tested)]), .replace "/c/x" added, .remove "/b/0"]
    let changed : Value :=
      .object [("b", .array [.object [("x", power)], oneZero]), ("c", .object [("x", one)])]
    let other : Value :=
      .object [("b", .array [.object [("x", hundred)], one]), ("c", .object [("x", oneZero)])]
    List.Forall₂ Operation.Alike (patch hundred one) (patch power oneZero) ∧ left.Alike right
      ∧ apply (patch hundred one) left = .ok changed ∧ apply (patch power oneZero) right = .ok other
      ∧ changed.equals .ordered other = true := by
  intro one oneZero hundred power left right patch changed other
  have documents : left.Alike right :=
    ⟨⟨by decide, by decide +kernel⟩, ⟨by decide, by decide +kernel⟩, by decide +kernel⟩
  have tested : (Value.object [("x", hundred)]).Alike (.object [("x", power)]) :=
    ⟨⟨by decide, by decide +kernel⟩, ⟨by decide, by decide +kernel⟩, by decide +kernel⟩
  have added : one.Alike oneZero :=
    ⟨⟨by decide, by decide +kernel⟩, ⟨by decide, by decide +kernel⟩, by decide +kernel⟩
  have operations : List.Forall₂ Operation.Alike (patch hundred one) (patch power oneZero) :=
    .cons (.move _ _) (.cons (.copy _ _) (.cons (.test _ tested) (.cons (.replace _ added)
      (.cons (.remove _) .nil))))
  have leftRun : apply (patch hundred one) left = .ok changed := by with_unfolding_all rfl
  have rightRun : apply (patch power oneZero) right = .ok other := by with_unfolding_all rfl
  rcases apply_respects_equality operations documents with
    ⟨_, _, leftDone, rightDone, equal⟩ | ⟨failure, failed, -⟩
  · obtain rfl := Except.ok.inj (leftRun.symm.trans leftDone)
    obtain rfl := Except.ok.inj (rightRun.symm.trans rightDone)
    exact ⟨operations, documents, leftRun, rightRun, equal⟩
  · cases leftRun.symm.trans failed

end Patch

end JsonTree
