import JsonTree.Proofs.Number.Window
import JsonTree.Proofs.Value.Symmetry

/-! Equality of values as a correspondence of nested multisets.

Greedy matching is complete when what it asks about is an equivalence. Equality of numbers
is one only on some classes of them; over such a class, equality of values is one too, by
one induction that carries the matching along.
-/

set_option autoImplicit false

namespace JsonTree.Value

/-- Values of one shape: the same leaves up to a relation of numbers, arrays whose items
correspond after the one on the right has been arranged, and objects whose members
correspond in some order, key by key (see `paired_members_iff`). -/
inductive Corresponds (order : ArrayOrder) (related : Number → Number → Prop) :
    Value → Value → Prop where
  | null : Corresponds order related null null
  | bool (flag : Bool) : Corresponds order related (bool flag) (bool flag)
  | number {left right : Number} : related left right →
      Corresponds order related (number left) (number right)
  | string (content : String) : Corresponds order related (string content) (string content)
  | array {lefts arranged rights : List Value} : order.Arranges arranged rights →
      List.Forall₂ (Corresponds order related) lefts arranged →
      Corresponds order related (array lefts) (array rights)
  | object {lefts arranged rights : Members} : arranged.Perm rights →
      Members.keys lefts = Members.keys arranged →
      List.Forall₂ (Corresponds order related) (lefts.map Prod.snd) (arranged.map Prod.snd) →
      Corresponds order related (object lefts) (object rights)

section

variable {order : ArrayOrder} {related : Number → Number → Prop}

def MembersRelated (related : Value → Value → Prop) (left right : String × Value) : Prop :=
  left.1 = right.1 ∧ related left.2 right.2

theorem forall₂_members {related : Value → Value → Prop} {lefts rights : Members} :
    List.Forall₂ (MembersRelated related) lefts rights
      ↔ Members.keys lefts = Members.keys rights
        ∧ List.Forall₂ related (lefts.map Prod.snd) (rights.map Prod.snd) := by
  induction lefts generalizing rights with
  | nil => cases rights <;> simp
  | cons left lefts ih =>
    cases rights with
    | nil => simp
    | cons right rights =>
      simp only [List.forall₂_cons, ih, Members.keys_cons, List.map_cons, List.cons.injEq,
        MembersRelated]
      tauto

theorem perm_keys_of_paired {related : Value → Value → Prop} {lefts rights : Members}
    (paired : Paired .unordered (MembersRelated related) lefts rights) :
    (Members.keys lefts).Perm (Members.keys rights) := by
  obtain ⟨arranged, places, each⟩ := paired
  rw [(forall₂_members.mp each).1]
  exact List.Perm.map Prod.fst places

/-- As many members on the right, each of the left under its key among them, are all of them. -/
theorem paired_of_found {related : Value → Value → Prop} {lefts rights : Members}
    (leftKeys : (Members.keys lefts).Nodup) (same : lefts.length = rights.length)
    (each : ∀ left ∈ lefts, ∃ right, rights.get? left.1 = some right ∧ related left.2 right) :
    Paired .unordered (MembersRelated related) lefts rights := by
  -- The partners stand in the order of the left, and are distinct since their keys are.
  let partner (left : String × Value) : String × Value :=
    (left.1, (rights.get? left.1).getD null)
  have known (left : String × Value) (inside : left ∈ lefts) :
      partner left ∈ rights ∧ related left.2 (partner left).2 := by
    obtain ⟨right, found, pair⟩ := each left inside
    have spelled : partner left = (left.1, right) := by
      simp only [partner, found, Option.getD_some]
    rw [spelled]
    exact ⟨Members.mem_of_get? found, pair⟩
  have keys : Members.keys (lefts.map partner) = Members.keys lefts := by
    simp [Members.keys, partner]
  have distinct : (lefts.map partner).Nodup := by
    refine List.Nodup.of_map Prod.fst ?_
    rwa [← Members.keys, keys]
  have inside : lefts.map partner ⊆ rights := by
    intro right member
    obtain ⟨left, inLefts, rfl⟩ := List.mem_map.mp member
    exact (known left inLefts).1
  refine ⟨lefts.map partner, ?_, ?_⟩
  · exact (distinct.subperm inside).perm_of_length_le (by rw [List.length_map, same])
  · rw [List.forall₂_map_right_iff, List.forall₂_same]
    exact fun left inLefts => ⟨rfl, (known left inLefts).2⟩

theorem found_of_paired {related : Value → Value → Prop} {lefts rights : Members}
    (rightKeys : (Members.keys rights).Nodup)
    (paired : Paired .unordered (MembersRelated related) lefts rights) {left : String × Value}
    (member : left ∈ lefts) : ∃ right, rights.get? left.1 = some right ∧ related left.2 right := by
  obtain ⟨⟨key, right⟩, inRights, same, pair⟩ := paired.exists_right member
  exact ⟨right, same ▸ Members.get?_of_mem rightKeys inRights, pair⟩

/-- Members with distinct keys are paired just when they are related under each key. -/
theorem paired_members_iff {related : Value → Value → Prop} {lefts rights : Members}
    (leftKeys : (Members.keys lefts).Nodup) (rightKeys : (Members.keys rights).Nodup) :
    Paired .unordered (MembersRelated related) lefts rights
      ↔ ∀ key, Option.Rel related (lefts.get? key) (rights.get? key) := by
  constructor
  · intro paired key
    cases held : lefts.get? key with
    | none =>
      rw [Members.get?_eq_none_iff, (perm_keys_of_paired paired).mem_iff] at held
      rw [Members.get?_eq_none_iff.mpr held]
      exact .none
    | some left =>
      obtain ⟨right, found, pair⟩ := found_of_paired rightKeys paired (Members.mem_of_get? held)
      dsimp only at found
      rw [found]
      exact .some pair
  · intro each
    -- The same keys are there on both sides, so there are as many members.
    have known (key : String) : key ∈ Members.keys lefts ↔ key ∈ Members.keys rights := by
      have absent := rel_none_iff (each key)
      rw [Members.get?_eq_none_iff, Members.get?_eq_none_iff] at absent
      exact not_iff_not.mp absent
    have count := ((List.perm_ext_iff_of_nodup leftKeys rightKeys).mpr known).length_eq
    rw [Members.keys, Members.keys, List.length_map, List.length_map] at count
    exact paired_of_found leftKeys count fun left inside =>
      rel_some (each left.1) (Members.get?_of_mem leftKeys inside)

theorem corresponds_array {lefts rights : List Value} :
    Corresponds order related (array lefts) (array rights)
      ↔ Paired order (Corresponds order related) lefts rights := by
  constructor
  · intro same
    cases same with
    | array arranges each => exact ⟨_, arranges, each⟩
  · rintro ⟨arranged, arranges, each⟩
    exact .array arranges each

theorem corresponds_object {lefts rights : Members} :
    Corresponds order related (object lefts) (object rights)
      ↔ Paired .unordered (MembersRelated (Corresponds order related)) lefts rights := by
  constructor
  · intro same
    cases same with
    | object places keys each => exact ⟨_, places, forall₂_members.mpr ⟨keys, each⟩⟩
  · rintro ⟨arranged, places, each⟩
    obtain ⟨keys, each⟩ := forall₂_members.mp each
    exact .object places keys each

theorem Corresponds.number_left {value : Number} {other : Value}
    (same : Corresponds order related (.number value) other) :
    ∃ second, other = .number second ∧ related value second := by
  cases same with
  | number holds => exact ⟨_, rfl, holds⟩

theorem Corresponds.array_left {items : List Value} {other : Value}
    (same : Corresponds order related (.array items) other) :
    ∃ others, other = .array others ∧ Paired order (Corresponds order related) items others := by
  cases same with
  | array arranges each => exact ⟨_, rfl, _, arranges, each⟩

theorem Corresponds.object_left {members : Members} {other : Value}
    (same : Corresponds order related (.object members) other) :
    ∃ others, other = .object others
      ∧ Paired .unordered (MembersRelated (Corresponds order related)) members others := by
  cases same with
  | object places keys each => exact ⟨_, rfl, _, places, forall₂_members.mpr ⟨keys, each⟩⟩

theorem Corresponds.symm {swapped : Number → Number → Prop}
    (swap : ∀ left right, related left right → swapped right left)
    {left right : Value} (same : Corresponds order related left right) :
    Corresponds order swapped right left := by
  induction left generalizing right with
  | null => cases same; exact .null
  | bool flag => cases same; exact .bool flag
  | string content => cases same; exact .string content
  | number value =>
    obtain ⟨other, rfl, holds⟩ := same.number_left
    exact .number (swap _ _ holds)
  | array lefts ih =>
    obtain ⟨rights, rfl, paired⟩ := same.array_left
    exact corresponds_array.mpr (paired.symm.imp_of_mem fun _ _ left member pair =>
      ih left member pair)
  | object lefts ih =>
    obtain ⟨rights, rfl, paired⟩ := same.object_left
    exact corresponds_object.mpr (paired.symm.imp_of_mem fun _ _ left member pair =>
      ⟨pair.1.symm, ih left member pair.2⟩)

theorem Corresponds.mono {wider : Number → Number → Prop} {left right : Value}
    (more : ∀ left right, related left right → wider left right)
    (same : Corresponds order related left right) : Corresponds order wider left right := by
  have turned : Corresponds order (fun right left => related left right) right left :=
    same.symm fun _ _ pair => pair
  exact turned.symm fun right left pair => more left right pair

theorem corresponds_self (each : ∀ number, related number number) (value : Value) :
    Corresponds order related value value := by
  induction value with
  | null => exact .null
  | bool flag => exact .bool flag
  | number value => exact .number (each value)
  | string content => exact .string content
  | array items ih => exact corresponds_array.mpr (paired_self ih)
  | object members ih =>
    exact corresponds_object.mpr (paired_self fun member inside => ⟨rfl, ih member inside⟩)

theorem Corresponds.trans {first second third : Value}
    (front : Corresponds order related first second)
    (back : Corresponds order related second third)
    (join : ∀ first second third, related first second → related second third →
      related first third) : Corresponds order related first third := by
  induction first generalizing second third with
  | null => cases front; exact back
  | bool flag => cases front; exact back
  | string content => cases front; exact back
  | number value =>
    obtain ⟨middle, rfl, before⟩ := front.number_left
    obtain ⟨last, rfl, after⟩ := back.number_left
    exact .number (join _ _ _ before after)
  | array firsts ih =>
    obtain ⟨seconds, rfl, before⟩ := front.array_left
    obtain ⟨thirds, rfl, after⟩ := back.array_left
    -- The items in the middle are arranged once for each side, and the arrangements compose.
    refine corresponds_array.mpr ((before.trans after).imp_of_mem ?_)
    rintro first member _ - ⟨_, pair, onward⟩
    exact ih first member pair onward
  | object firsts ih =>
    obtain ⟨seconds, rfl, before⟩ := front.object_left
    obtain ⟨thirds, rfl, after⟩ := back.object_left
    refine corresponds_object.mpr ((before.trans after).imp_of_mem ?_)
    rintro first member _ - ⟨_, pair, onward⟩
    exact ⟨pair.1.trans onward.1, ih first member pair.2 onward.2⟩

theorem corresponds_equivalence (order : ArrayOrder) (equivalence : Equivalence related) :
    Equivalence (Corresponds order related) where
  refl := corresponds_self equivalence.refl
  symm := Corresponds.symm fun _ _ => equivalence.symm
  trans front back := front.trans back fun _ _ _ => equivalence.trans

theorem Corresponds.within {range : Number → Prop} {left right : Value}
    (carry : ∀ left right, related left right → range left → range right)
    (same : Corresponds order related left right) (within : left.Within range) :
    right.Within range := by
  induction left generalizing right with
  | null | bool | string => cases same; exact within
  | number value =>
    obtain ⟨other, rfl, holds⟩ := same.number_left
    exact within_number.mpr (carry _ _ holds (within_number.mp within))
  | array lefts ih =>
    obtain ⟨rights, rfl, paired⟩ := same.array_left
    refine within_array.mpr fun right member => ?_
    obtain ⟨left, inLefts, pair⟩ := paired.exists_left member
    exact ih left inLefts pair (within_array.mp within left inLefts)
  | object lefts ih =>
    obtain ⟨rights, rfl, paired⟩ := same.object_left
    obtain ⟨keys, each⟩ := within_object.mp within
    refine within_object.mpr ⟨?_, fun right member => ?_⟩
    · exact (perm_keys_of_paired paired).nodup_iff.mp keys
    · obtain ⟨left, inLefts, -, pair⟩ := paired.exists_left member
      exact ih left inLefts pair (each left inLefts)

end

section

variable {order : ArrayOrder}

theorem itemsEqual_iff {lefts rights : List Value} (same : lefts.length = rights.length) :
    itemsEqual order lefts rights = true
      ↔ List.Forall₂ (fun left right => left.equals order right = true) lefts rights := by
  induction lefts generalizing rights with
  | nil =>
    obtain rfl := List.eq_nil_of_length_eq_zero same.symm
    exact iff_of_true (by simp [itemsEqual]) .nil
  | cons left lefts ih =>
    cases rights with
    | nil => contradiction
    | cons right rights =>
      rw [itemsEqual, Bool.and_eq_true, List.forall₂_cons, ih (Nat.succ.inj same)]

theorem equals_array {lefts rights : List Value}
    (exchange : ∀ left ∈ lefts, ∀ other ∈ lefts, ∀ hit ∈ rights, ∀ right ∈ rights,
      left.equals order hit = true → left.equals order right = true →
      other.equals order hit = true → other.equals order right = true) :
    (array lefts).equals order (array rights) = true
      ↔ Paired order (fun left right => left.equals order right = true) lefts rights := by
  by_cases same : lefts.length = rights.length
  · cases order with
    | ordered =>
      rw [equals, same, beq_self_eq_true, Bool.true_and, paired_ordered]
      exact itemsEqual_iff same
    | unordered =>
      rw [equals, same, beq_self_eq_true, Bool.true_and, itemsMatch_eq_matchAll]
      exact matchAll_iff_paired same exchange
  · refine iff_of_false ?_ fun paired => same paired.length_eq
    cases order <;> simp [equals, same]

theorem equals_object {lefts rights : Members} (leftKeys : (Members.keys lefts).Nodup)
    (rightKeys : (Members.keys rights).Nodup) :
    (object lefts).equals order (object rights) = true
      ↔ Paired .unordered (MembersRelated fun left right => left.equals order right = true)
          lefts rights := by
  simp only [equals, Bool.and_eq_true, beq_iff_eq, membersEqual_iff]
  constructor
  · rintro ⟨same, each⟩
    exact paired_of_found leftKeys same each
  · intro paired
    exact ⟨paired.length_eq, fun left member => found_of_paired rightKeys paired member⟩

end

/-- Over numbers of which equality is an equivalence, equality of values is to correspond. -/
theorem equals_iff_corresponds {range : Number → Prop} {related : Number → Number → Prop}
    (equivalence : Equivalence related)
    (agrees : ∀ left right, range left → range right →
      (left.equals right = true ↔ related left right))
    (order : ArrayOrder) {left right : Value} (leftWithin : left.Within range)
    (rightWithin : right.Within range) :
    left.equals order right = true ↔ Corresponds order related left right := by
  induction left generalizing right with
  | null =>
    cases right with
    | null => exact iff_of_true (by rw [equals]) .null
    | _ => exact iff_of_false (by simp [equals]) fun same => by cases same
  | bool flag =>
    cases right with
    | bool other =>
      rw [equals, beq_iff_eq]
      exact ⟨fun same => same ▸ .bool flag, fun same => by cases same; rfl⟩
    | _ => exact iff_of_false (by simp [equals]) fun same => by cases same
  | string content =>
    cases right with
    | string other =>
      rw [equals, beq_iff_eq]
      exact ⟨fun same => same ▸ .string content, fun same => by cases same; rfl⟩
    | _ => exact iff_of_false (by simp [equals]) fun same => by cases same
  | number value =>
    cases right with
    | number other =>
      rw [equals, agrees value other (within_number.mp leftWithin) (within_number.mp rightWithin)]
      exact ⟨.number, fun same => by cases same; assumption⟩
    | _ => exact iff_of_false (by simp [equals]) fun same => by cases same
  | array lefts ih =>
    cases right with
    | array rights =>
      have each : ∀ left ∈ lefts, ∀ right ∈ rights,
          (left.equals order right = true ↔ Corresponds order related left right) :=
        fun left inLefts right inRights => ih left inLefts
          (within_array.mp leftWithin left inLefts) (within_array.mp rightWithin right inRights)
      rw [equals_array, paired_congr each, corresponds_array]
      -- Greedy matching may take any item that is accepted: what accepts one of two items that the
      -- same item accepts also accepts the other.
      intro left inLefts other inOthers hit inHits right inRights first second third
      rw [each _ inLefts _ inHits] at first
      rw [each _ inLefts _ inRights] at second
      rw [each _ inOthers _ inHits] at third
      rw [each _ inOthers _ inRights]
      have nested := corresponds_equivalence order equivalence
      exact nested.trans third (nested.trans (nested.symm first) second)
    | _ => exact iff_of_false (by simp [equals]) fun same => by cases same
  | object lefts ih =>
    cases right with
    | object rights =>
      obtain ⟨leftKeys, leftInner⟩ := within_object.mp leftWithin
      obtain ⟨rightKeys, rightInner⟩ := within_object.mp rightWithin
      rw [equals_object leftKeys rightKeys, corresponds_object]
      refine paired_congr fun left inLefts right inRights => and_congr_right fun _ => ?_
      exact ih left inLefts (leftInner left inLefts) (rightInner right inRights)
    | _ => exact iff_of_false (by simp [equals]) fun same => by cases same

/-- Where the precision holds every number, equality of values is that of nested sequences or
multisets of exact values, an equivalence, and greedy matching misses no pairing. -/
theorem equals_exact_multisets (order : ArrayOrder) :
    (∀ left right : Value, left.Within Number.Windowed → right.Within Number.Windowed →
      (left.equals order right = true
        ↔ Corresponds order (fun left right => left.toRat = right.toRat) left right))
      ∧ Equivalence (fun left right : {value : Value // value.Within Number.Windowed} =>
        left.1.equals order right.1 = true)
      ∧ ∀ lefts rights : List Value, (array lefts).Within Number.Windowed →
        (array rights).Within Number.Windowed →
        ((array lefts).equals order (array rights) = true
          ↔ ∃ arranged, order.Arranges arranged rights
            ∧ List.Forall₂ (fun left right => left.equals order right = true) lefts arranged) := by
  have values : Equivalence fun left right : Number => left.toRat = right.toRat :=
    ⟨fun _ => rfl, Eq.symm, Eq.trans⟩
  have exact (left right : Value) (leftWithin : left.Within Number.Windowed)
      (rightWithin : right.Within Number.Windowed) :
      left.equals order right = true
        ↔ Corresponds order (fun left right => left.toRat = right.toRat) left right :=
    equals_iff_corresponds values (fun _ _ => Number.Windowed.equals_iff) order leftWithin
      rightWithin
  have nested := corresponds_equivalence order values
  refine ⟨exact, ⟨?_, ?_, ?_⟩, ?_⟩
  · rintro ⟨value, within⟩
    exact (exact _ _ within within).mpr (nested.refl value)
  · rintro ⟨left, leftWithin⟩ ⟨right, rightWithin⟩ equal
    exact (exact _ _ rightWithin leftWithin).mpr
      (nested.symm ((exact _ _ leftWithin rightWithin).mp equal))
  · rintro ⟨first, firstWithin⟩ ⟨second, secondWithin⟩ ⟨third, thirdWithin⟩ front back
    have before := (exact _ _ firstWithin secondWithin).mp front
    have after := (exact _ _ secondWithin thirdWithin).mp back
    exact (exact _ _ firstWithin thirdWithin).mpr (nested.trans before after)
  · intro lefts rights leftWithin rightWithin
    have each (left : Value) (inLefts : left ∈ lefts) (right : Value) (inRights : right ∈ rights) :=
      exact left right (within_array.mp leftWithin left inLefts)
        (within_array.mp rightWithin right inRights)
    rw [exact _ _ leftWithin rightWithin, corresponds_array]
    exact (paired_congr each).symm

theorem equals_exact_multisets_nested :
    let one : Number := ⟨false, 1, [], none⟩
    let ten : Number := ⟨false, 10, [0], some ⟨true, 1, []⟩⟩
    let half : Number := ⟨false, 0, [5], none⟩
    let left : Value := .array [.object [("a", .array [.number one, .number half, .number ten]),
      ("b", .null)], .bool true, .array [.number half]]
    let right : Value := .array [.array [.number half], .object [("b", .null),
      ("a", .array [.number ten, .number ten, .number half])], .bool true]
    left.Within Number.Windowed ∧ right.Within Number.Windowed
      ∧ Corresponds .unordered (fun left right => left.toRat = right.toRat) left right
      ∧ ¬ Corresponds .ordered (fun left right => left.toRat = right.toRat) left right := by
  intro one ten half left right
  have leftWithin : left.Within Number.Windowed := by decide +kernel
  have rightWithin : right.Within Number.Windowed := by decide +kernel
  refine ⟨leftWithin, rightWithin, ?_, ?_⟩
  · exact ((equals_exact_multisets .unordered).1 left right leftWithin rightWithin).mp
      (by decide +kernel)
  · intro same
    have equal := ((equals_exact_multisets .ordered).1 left right leftWithin rightWithin).mpr same
    exact absurd equal (by decide +kernel)

end JsonTree.Value
