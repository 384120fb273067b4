import JsonTree.Proofs.Value.Rearrangement
import JsonTree.Value.Sharing

/-! Equality of a value with itself, and what sharing makes of it.

Every value is equal to itself, so a container that stands on both sides need not be looked
into. Equality is not transitive, and greedy matching may take what a later item needs; but
where the items are equal place by place, each one finds its own place free and those in
front of it taken, and takes no later one.
-/

set_option autoImplicit false

namespace JsonTree

namespace Value

/-- Every value is equal to itself, whatever numbers it holds. -/
theorem equals_self {value : Value} (distinct : value.DistinctKeys) (order : ArrayOrder) :
    value.equals order value = true :=
  MembersMoved.equals order distinct (corresponds_self (fun _ => rfl) value)

theorem itemsEqual_imp {order other : ArrayOrder} {lefts rights : List Value}
    (same : lefts.length = rights.length)
    (more : ∀ left ∈ lefts, ∀ right ∈ rights,
      left.equals order right = true → left.equals other right = true)
    (equal : itemsEqual order lefts rights = true) :
    List.Forall₂ (fun left right => left.equals other right = true) lefts rights :=
  forall₂_imp_of_mem ((itemsEqual_iff same).mp equal) more

theorem membersEqual_imp {order other : ArrayOrder} {lefts rights : Members}
    (more : ∀ left ∈ lefts, ∀ right,
      left.2.equals order right = true → left.2.equals other right = true)
    (equal : membersEqual order lefts rights = true) : membersEqual other lefts rights = true := by
  rw [membersEqual_iff] at equal ⊢
  intro left member
  obtain ⟨right, found, pair⟩ := equal left member
  exact ⟨right, found, more left member right pair⟩

theorem equals_unordered_of_ordered {left right : Value}
    (equal : left.equals .ordered right = true) : left.equals .unordered right = true := by
  induction left generalizing right with
  | null | bool | number | string => cases right <;> simp only [equals] at equal ⊢ <;> exact equal
  | array lefts ih =>
    cases right with
    | array rights =>
      simp only [equals, Bool.and_eq_true, beq_iff_eq] at equal ⊢
      obtain ⟨same, items⟩ := equal
      refine ⟨same, ?_⟩
      rw [itemsMatch_eq_matchAll]
      exact matchAll_of_forall₂
        (itemsEqual_imp same (fun left member right _ => ih left member) items)
    | _ => simp [equals] at equal
  | object lefts ih =>
    cases right with
    | object rights =>
      simp only [equals, Bool.and_eq_true, beq_iff_eq] at equal ⊢
      exact ⟨equal.1, membersEqual_imp (fun left member right => ih left member) equal.2⟩
    | _ => simp [equals] at equal

end Value

namespace Stored

@[induction_eliminator]
theorem induction {motive : Stored → Prop} (null : motive .null)
    (bool : ∀ flag, motive (.bool flag)) (number : ∀ value, motive (.number value))
    (string : ∀ content, motive (.string content))
    (array : ∀ address items, (∀ item ∈ items, motive item) → motive (.array address items))
    (object : ∀ address members, (∀ member ∈ members, motive member.2) →
      motive (.object address members))
    (stored : Stored) : motive stored :=
  @rec motive (fun items => ∀ item ∈ items, motive item)
    (fun members => ∀ member ∈ members, motive member.2) (fun member => motive member.2)
    null bool number string array object (List.forall_mem_nil _)
    (fun _ _ first rest => List.forall_mem_cons.mpr ⟨first, rest⟩) (List.forall_mem_nil _)
    (fun _ _ first rest => List.forall_mem_cons.mpr ⟨first, rest⟩) (fun _ _ inner => inner) stored

theorem itemValues_eq (items : List Stored) : itemValues items = items.map value := by
  induction items with
  | nil => rw [itemValues]; rfl
  | cons item rest ih => rw [itemValues, ih, List.map_cons]

theorem memberValues_eq (members : List (String × Stored)) :
    memberValues members = members.map fun member => (member.1, member.2.value) := by
  induction members with
  | nil => rw [memberValues]; rfl
  | cons member rest ih => rw [memberValues, ih, List.map_cons]

theorem value_array (address : Nat) (items : List Stored) :
    (array address items).value = .array (items.map value) := by
  rw [value, itemValues_eq]

theorem value_object (address : Nat) (members : List (String × Stored)) :
    (object address members).value
      = .object (members.map fun member => (member.1, member.2.value)) := by
  rw [value, memberValues_eq]

/-- A value lies in a memory that holds, at the address of each container, that container. -/
inductive LiesIn (memory : Nat → Value) : Stored → Prop where
  | null : LiesIn memory .null
  | bool (flag : Bool) : LiesIn memory (.bool flag)
  | number (value : Number) : LiesIn memory (.number value)
  | string (content : String) : LiesIn memory (.string content)
  | array {address : Nat} {items : List Stored} :
      memory address = (Stored.array address items).value →
      (∀ item ∈ items, LiesIn memory item) → LiesIn memory (.array address items)
  | object {address : Nat} {members : List (String × Stored)} :
      memory address = (Stored.object address members).value →
      (∀ member ∈ members, LiesIn memory member.2) → LiesIn memory (.object address members)

theorem LiesIn.array_inner {memory : Nat → Value} {address : Nat} {items : List Stored}
    (lies : (Stored.array address items).LiesIn memory) :
    memory address = (Stored.array address items).value ∧ ∀ item ∈ items, item.LiesIn memory := by
  cases lies with
  | array held inner => exact ⟨held, inner⟩

theorem LiesIn.object_inner {memory : Nat → Value} {address : Nat}
    {members : List (String × Stored)} (lies : (Stored.object address members).LiesIn memory) :
    memory address = (Stored.object address members).value
      ∧ ∀ member ∈ members, member.2.LiesIn memory := by
  cases lies with
  | object held inner => exact ⟨held, inner⟩

section

variable {order : ArrayOrder} {lefts rights : List Stored}

theorem itemsEqual_value (each : ∀ left ∈ lefts, ∀ right ∈ rights,
      left.equals order right = left.value.equals order right.value) :
    itemsEqual order lefts rights
      = Value.itemsEqual order (lefts.map value) (rights.map value) := by
  induction lefts generalizing rights with
  | nil => simp only [itemsEqual, Value.itemsEqual, List.map_nil]
  | cons left lefts ih =>
    cases rights with
    | nil => simp only [itemsEqual, Value.itemsEqual, List.map_nil, List.map_cons]
    | cons right rights =>
      simp only [itemsEqual, Value.itemsEqual, List.map_cons]
      rw [each left List.mem_cons_self right List.mem_cons_self, ih]
      intro left inLefts right inRights
      exact each left (List.mem_cons_of_mem _ inLefts) right (List.mem_cons_of_mem _ inRights)

theorem itemsMatch_eq_matchAll (order : ArrayOrder) (lefts rights : List Stored) :
    itemsMatch order lefts rights = matchAll (equals order) lefts rights := by
  induction lefts generalizing rights with
  | nil => rw [itemsMatch, matchAll]
  | cons left lefts ih =>
    rw [itemsMatch, matchAll]
    cases takeFirst (equals order left) rights with
    | none => rfl
    | some rest => exact ih rest

theorem itemsMatch_value (each : ∀ left ∈ lefts, ∀ right ∈ rights,
      left.equals order right = left.value.equals order right.value) :
    itemsMatch order lefts rights
      = Value.itemsMatch order (lefts.map value) (rights.map value) := by
  rw [itemsMatch_eq_matchAll, Value.itemsMatch_eq_matchAll, matchAll_map]
  exact matchAll_congr each

theorem get?_memberValues (key : String) (members : List (String × Stored)) :
    Members.get? key (members.map fun member => (member.1, member.2.value))
      = (members.lookup key).map value := by
  induction members with
  | nil => rfl
  | cons member rest ih =>
    obtain ⟨name, inner⟩ := member
    rw [List.map_cons, Members.get?, List.lookup_cons, ih]
    by_cases same : name = key
    · rw [if_pos same, same, beq_self_eq_true]
      rfl
    · rw [if_neg same, beq_false_of_ne (Ne.symm same)]

theorem membersEqual_value {lefts rights : List (String × Stored)}
    (each : ∀ left ∈ lefts, ∀ right ∈ rights,
      left.2.equals order right.2 = left.2.value.equals order right.2.value) :
    membersEqual order lefts rights
      = Value.membersEqual order (lefts.map fun member => (member.1, member.2.value))
          (rights.map fun member => (member.1, member.2.value)) := by
  induction lefts with
  | nil => simp only [membersEqual, Value.membersEqual, List.map_nil]
  | cons left lefts ih =>
    obtain ⟨key, left⟩ := left
    obtain ⟨first, others⟩ := List.forall_mem_cons.mp each
    simp only [membersEqual, Value.membersEqual, List.map_cons]
    rw [ih others, get?_memberValues]
    congr 1
    cases found : rights.lookup key with
    | none => rfl
    | some right =>
      obtain ⟨front, back, rfl, -⟩ := List.lookup_eq_some_iff.mp found
      exact first (key, right) (List.mem_append_right _ List.mem_cons_self)

end

/-- The containers of one memory that share an address are one value, and that is equal to
itself; so comparing what is stored comes to comparing the values. -/
theorem equals_value {memory : Nat → Value} {order : ArrayOrder} {left right : Stored}
    (leftLies : left.LiesIn memory) (rightLies : right.LiesIn memory)
    (distinct : left.value.DistinctKeys) :
    left.equals order right = left.value.equals order right.value := by
  induction left generalizing right with
  | null | bool | number | string =>
    cases right <;> simp only [equals, value, Value.equals]
  | array here lefts ih =>
    cases right with
    | array there rights =>
      obtain ⟨leftHeld, leftInner⟩ := leftLies.array_inner
      obtain ⟨rightHeld, rightInner⟩ := rightLies.array_inner
      by_cases shared : here = there
      -- At one address both are the value stored there, and it is equal to itself.
      · subst shared
        rw [← rightHeld, leftHeld, Value.equals_self distinct]
        cases order <;> simp only [equals, beq_self_eq_true, Bool.true_or]
      · rw [value_array] at distinct
        have each : ∀ left ∈ lefts, ∀ right ∈ rights,
            left.equals order right = left.value.equals order right.value := by
          intro left inLefts right inRights
          exact ih left inLefts (leftInner left inLefts) (rightInner right inRights)
            (Value.distinctKeys_array.mp distinct _ (List.mem_map_of_mem inLefts))
        rw [value_array, value_array]
        cases order with
        | ordered =>
          simp only [equals, Value.equals, beq_false_of_ne shared, Bool.false_or, List.length_map]
          rw [itemsEqual_value each]
        | unordered =>
          simp only [equals, Value.equals, beq_false_of_ne shared, Bool.false_or, List.length_map]
          rw [itemsMatch_value each]
    | _ => simp only [equals, value, Value.equals]
  | object here lefts ih =>
    cases right with
    | object there rights =>
      obtain ⟨leftHeld, leftInner⟩ := leftLies.object_inner
      obtain ⟨rightHeld, rightInner⟩ := rightLies.object_inner
      by_cases shared : here = there
      · subst shared
        rw [← rightHeld, leftHeld, Value.equals_self distinct]
        simp only [equals, beq_self_eq_true, Bool.true_or]
      · rw [value_object] at distinct
        have inner := (Value.distinctKeys_object.mp distinct).2
        have each : ∀ left ∈ lefts, ∀ right ∈ rights,
            left.2.equals order right.2 = left.2.value.equals order right.2.value := by
          intro left inLefts right inRights
          exact ih left inLefts (leftInner left inLefts) (rightInner right inRights)
            (inner _ (List.mem_map_of_mem inLefts))
        rw [value_object, value_object]
        simp only [equals, Value.equals, beq_false_of_ne shared, Bool.false_or, List.length_map]
        rw [membersEqual_value each]
    | _ => simp only [equals, value, Value.equals]

end Stored

/-- A value of any numbers is equal to itself in both modes, so to pass over containers that
are one in memory changes no answer; and sequences that are equal are equal as multisets. -/
theorem Value.equality_reflexive :
    (∀ (order : ArrayOrder) (value : Value), value.DistinctKeys → value.equals order value = true)
      ∧ (∀ (order : ArrayOrder) (memory : Nat → Value) (left right : Stored),
          left.LiesIn memory → right.LiesIn memory → left.value.DistinctKeys →
          left.equals order right = left.value.equals order right.value)
      ∧ ∀ left right : Value, left.equals .ordered right = true →
          left.equals .unordered right = true := by
  refine ⟨?_, ?_, ?_⟩
  · exact fun order value distinct => Value.equals_self distinct order
  · exact fun order memory left right leftLies rightLies distinct =>
      Stored.equals_value leftLies rightLies distinct
  · exact fun left right equal => Value.equals_unordered_of_ordered equal

/-- Numbers of which equality is not transitive, and one beyond floating point, in an array
that both values hold and one of them twice. -/
theorem Value.equality_reflexive_shared :
    let items : List Stored := [.number ⟨false, 1, [], some ⟨true, 3, [0]⟩⟩,
      .number ⟨false, 0, [], none⟩, .number ⟨false, 1, [], some ⟨true, 1, [6]⟩⟩,
      .number ⟨true, 1, [], some ⟨false, 4, [0, 0]⟩⟩]
    let left : Stored := .object 0 [("a", .array 1 items), ("b", .array 1 items)]
    let right : Stored := .object 2 [("b", .array 3 items), ("a", .array 1 items)]
    let memory (address : Nat) : Value := match address with
      | 0 => left.value
      | 2 => right.value
      | _ => (Stored.array 1 items).value
    left.LiesIn memory ∧ right.LiesIn memory ∧ left.value.DistinctKeys
      ∧ (∀ order, left.value.equals order left.value = true)
      ∧ left.equals .ordered right = left.value.equals .ordered right.value
      ∧ left.value.equals .ordered right.value = true
      ∧ left.value.equals .unordered right.value = true := by
  intro items left right memory
  have numbers : ∀ item ∈ items, item.LiesIn memory := by
    simp only [items, List.forall_mem_cons]
    exact ⟨.number _, .number _, .number _, .number _, List.forall_mem_nil _⟩
  have first : (Stored.array 1 items).LiesIn memory := .array rfl numbers
  have third : (Stored.array 3 items).LiesIn memory := .array rfl numbers
  have leftLies : left.LiesIn memory := by
    refine .object rfl ?_
    simp only [List.forall_mem_cons]
    exact ⟨first, first, List.forall_mem_nil _⟩
  have rightLies : right.LiesIn memory := by
    refine .object rfl ?_
    simp only [List.forall_mem_cons]
    exact ⟨third, first, List.forall_mem_nil _⟩
  have distinct : left.value.DistinctKeys := by decide
  obtain ⟨reflexive, shared, weaker⟩ := Value.equality_reflexive
  have equal : left.value.equals .ordered right.value = true := by decide +kernel
  exact ⟨leftLies, rightLies, distinct, fun order => reflexive order _ distinct,
    shared .ordered memory left right leftLies rightLies distinct, equal,
    weaker _ _ equal⟩

end JsonTree
