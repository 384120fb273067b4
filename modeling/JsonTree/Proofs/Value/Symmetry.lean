import Mathlib.Data.List.Perm.Subperm
import JsonTree.Proofs.Value.Everywhere
import JsonTree.Proofs.Value.Matching

/-! Equality does not depend on which value stands on the left.

It is not transitive, so no step may go through a third value. Arrays as multisets are
symmetric because greedy matching is; objects because distinct keys that are all found
among as many distinct keys are all of them.
-/

set_option autoImplicit false

namespace JsonTree

theorem Number.equals_comm (left right : Number) : left.equals right = right.equals left := by
  have decimals : (right.decimal == left.decimal) = (left.decimal == right.decimal) := BEq.comm
  unfold equals
  rw [Bool.and_comm right.decimal.fits, decimals]
  cases left.wideInteger? <;> cases right.wideInteger?
  case some.some first second => exact BEq.comm
  all_goals
    refine ite_congr rfl (fun _ => rfl) fun _ => ?_
    cases left.nearest <;> cases right.nearest
    case finite.finite => exact Binary64.near_comm _ _
    all_goals rfl

namespace Value

theorem itemsMatch_eq_matchAll (order : ArrayOrder) (lefts rights : List Value) :
    itemsMatch order lefts rights = matchAll (equals order) lefts rights := by
  induction lefts generalizing rights with
  | nil => rw [itemsMatch, matchAll]
  | cons left lefts ih =>
    rw [itemsMatch, matchAll]
    cases takeFirst (equals order left) rights with
    | none => rfl
    | some rest => exact ih rest

theorem membersEqual_iff {order : ArrayOrder} {lefts rights : Members} :
    membersEqual order lefts rights = true
      ↔ ∀ member ∈ lefts, ∃ right, rights.get? member.1 = some right
        ∧ member.2.equals order right = true := by
  induction lefts with
  | nil => simp [membersEqual]
  | cons member lefts ih =>
    obtain ⟨key, left⟩ := member
    rw [membersEqual, Bool.and_eq_true, ih, List.forall_mem_cons]
    refine and_congr_left fun _ => ?_
    cases rights.get? key <;> simp

theorem itemsEqual_swap {order : ArrayOrder} {lefts rights : List Value}
    (each : ∀ left ∈ lefts, ∀ right ∈ rights, left.equals order right = right.equals order left) :
    itemsEqual order lefts rights = itemsEqual order rights lefts := by
  induction lefts generalizing rights with
  | nil => cases rights <;> simp only [itemsEqual]
  | cons left lefts ih =>
    cases rights with
    | nil => simp only [itemsEqual]
    | cons right rights =>
      rw [itemsEqual, itemsEqual, each left List.mem_cons_self right List.mem_cons_self]
      congr 1
      apply ih
      intro left inLefts right inRights
      exact each left (List.mem_cons_of_mem _ inLefts) right (List.mem_cons_of_mem _ inRights)

theorem itemsMatch_swap {order : ArrayOrder} {lefts rights : List Value}
    (same : lefts.length = rights.length)
    (each : ∀ left ∈ lefts, ∀ right ∈ rights, left.equals order right = right.equals order left) :
    itemsMatch order lefts rights = itemsMatch order rights lefts := by
  rw [itemsMatch_eq_matchAll, itemsMatch_eq_matchAll, matchAll_swap _ same]
  apply matchAll_congr
  intro right inRights left inLefts
  exact each left inLefts right inRights

/-- As many distinct keys as there are on the right, all found there, are all of them. -/
theorem keys_subset_of_membersEqual {order : ArrayOrder} {lefts rights : Members}
    (leftDistinct : (Members.keys lefts).Nodup) (same : lefts.length = rights.length)
    (equal : membersEqual order lefts rights = true) :
    Members.keys rights ⊆ Members.keys lefts := by
  rw [membersEqual_iff] at equal
  have found : Members.keys lefts ⊆ Members.keys rights := by
    intro key known
    obtain ⟨left, member, rfl⟩ := List.mem_map.mp known
    obtain ⟨right, held, -⟩ := equal left member
    exact List.mem_map.mpr ⟨(left.1, right), Members.mem_of_get? held, rfl⟩
  refine ((leftDistinct.subperm found).perm_of_length_le ?_).symm.subset
  simp [Members.keys, same]

theorem membersEqual_of_swap {order : ArrayOrder} {lefts rights : Members}
    (leftDistinct : (Members.keys lefts).Nodup) (rightDistinct : (Members.keys rights).Nodup)
    (same : lefts.length = rights.length)
    (each : ∀ left ∈ lefts, ∀ right ∈ rights,
      left.2.equals order right.2 = right.2.equals order left.2)
    (equal : membersEqual order lefts rights = true) :
    membersEqual order rights lefts = true := by
  have all := keys_subset_of_membersEqual leftDistinct same equal
  rw [membersEqual_iff] at equal ⊢
  rintro ⟨key, right⟩ member
  obtain ⟨⟨name, left⟩, inLefts, rfl⟩ := List.mem_map.mp (all (List.mem_map_of_mem member))
  obtain ⟨other, held, equals⟩ := equal (name, left) inLefts
  -- The right side has one value under the key.
  obtain rfl := Option.some.inj (held.symm.trans (Members.get?_of_mem rightDistinct member))
  refine ⟨left, Members.get?_of_mem leftDistinct inLefts, ?_⟩
  rw [← each (name, left) inLefts (name, other) member]
  exact equals

theorem membersEqual_swap {order : ArrayOrder} {lefts rights : Members}
    (leftDistinct : (Members.keys lefts).Nodup) (rightDistinct : (Members.keys rights).Nodup)
    (same : lefts.length = rights.length)
    (each : ∀ left ∈ lefts, ∀ right ∈ rights,
      left.2.equals order right.2 = right.2.equals order left.2) :
    membersEqual order lefts rights = membersEqual order rights lefts := by
  apply Bool.eq_iff_iff.mpr
  constructor
  · exact membersEqual_of_swap leftDistinct rightDistinct same each
  · apply membersEqual_of_swap rightDistinct leftDistinct same.symm
    intro right inRights left inLefts
    exact (each left inLefts right inRights).symm

/-- The two sides of an equality may be exchanged, whichever way arrays are compared. -/
theorem equals_symmetric (order : ArrayOrder) {left right : Value}
    (leftDistinct : left.DistinctKeys) (rightDistinct : right.DistinctKeys) :
    left.equals order right = right.equals order left := by
  induction left generalizing right with
  | null => cases right <;> simp only [equals]
  | bool flag => cases right <;> simp only [equals, BEq.comm]
  | number value => cases right <;> simp only [equals, Number.equals_comm]
  | string content => cases right <;> simp only [equals, BEq.comm]
  | array lefts ih =>
    cases right with
    | array rights =>
      have each : ∀ left ∈ lefts, ∀ right ∈ rights,
          left.equals order right = right.equals order left := by
        intro left inLefts right inRights
        exact ih left inLefts (distinctKeys_array.mp leftDistinct left inLefts)
          (distinctKeys_array.mp rightDistinct right inRights)
      cases order with
      | ordered => rw [equals, equals, BEq.comm, itemsEqual_swap each]
      | unordered =>
        rw [equals, equals, BEq.comm]
        -- Swapping a matching needs as many items on both sides.
        by_cases same : lefts.length = rights.length
        · rw [itemsMatch_swap same each]
        · rw [beq_false_of_ne (Ne.symm same), Bool.false_and, Bool.false_and]
    | _ => simp only [equals]
  | object lefts ih =>
    cases right with
    | object rights =>
      obtain ⟨leftKeys, leftInner⟩ := distinctKeys_object.mp leftDistinct
      obtain ⟨rightKeys, rightInner⟩ := distinctKeys_object.mp rightDistinct
      have each : ∀ left ∈ lefts, ∀ right ∈ rights,
          left.2.equals order right.2 = right.2.equals order left.2 := by
        intro left inLefts right inRights
        exact ih left inLefts (leftInner left inLefts) (rightInner right inRights)
      rw [equals, equals, BEq.comm]
      by_cases same : lefts.length = rights.length
      · rw [membersEqual_swap leftKeys rightKeys same each]
      · rw [beq_false_of_ne (Ne.symm same), Bool.false_and, Bool.false_and]
    | _ => simp only [equals]

theorem equals_symmetric_multisets :
    let near (last : Digit) : Value := .number ⟨false, 1, List.replicate 30 0 ++ [last], none⟩
    let left : Value := .object [("a", .array [near 1, near 2, .null]), ("b", .array [])]
    let right : Value := .object [("b", .array []), ("a", .array [.null, near 3, near 1])]
    left.DistinctKeys ∧ right.DistinctKeys
      ∧ left.equals .unordered right = right.equals .unordered left := by
  intro near left right
  have leftDistinct : left.DistinctKeys := by decide
  have rightDistinct : right.DistinctKeys := by decide
  exact ⟨leftDistinct, rightDistinct, equals_symmetric .unordered leftDistinct rightDistinct⟩

end Value

end JsonTree
