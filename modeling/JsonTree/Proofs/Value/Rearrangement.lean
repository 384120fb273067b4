import JsonTree.Proofs.Value.Correspondence

/-! Which rearrangements of a value unordered equality does not see.

Members of objects can change places anywhere. Items of arrays can when equality is
transitive on the numbers of the value, and on no wider range: beyond the precision numbers
are equal when they are near, an item can take a partner that a later one needs, and
nothing takes back what it took.
-/

set_option autoImplicit false

namespace JsonTree.Value

/-- Items of arrays and members of objects in other places, at any level. -/
abbrev Rearranged : Value → Value → Prop := Corresponds .unordered Eq

/-- Only members of objects in other places, at any level. -/
abbrev MembersMoved : Value → Value → Prop := Corresponds .ordered Eq

/-- Equality of numbers passes from pair to pair on a range. -/
def EqualityTransitive (range : Number → Prop) : Prop :=
  ∀ first second third, range first → range second → range third →
    first.equals second = true → second.equals third = true → first.equals third = true

theorem equalityTransitive_fits : EqualityTransitive fun number => number.decimal.fits = true := by
  intro first second third firstFits secondFits thirdFits front back
  rw [Number.equals_iff_of_fits firstFits secondFits] at front
  rw [Number.equals_iff_of_fits secondFits thirdFits] at back
  exact (Number.equals_iff_of_fits firstFits thirdFits).mpr (front.trans back)

/-- Equality of numbers on a range on which it is transitive, and identity elsewhere. -/
def EqualOn (range : Number → Prop) (left right : Number) : Prop :=
  left = right ∨ range left ∧ range right ∧ left.equals right = true

theorem equalOn_equivalence {range : Number → Prop} (transitive : EqualityTransitive range) :
    Equivalence (EqualOn range) where
  refl _ := .inl rfl
  symm := by
    rintro left right (rfl | ⟨inLeft, inRight, equal⟩)
    · exact .inl rfl
    · exact .inr ⟨inRight, inLeft, Number.equals_comm left right ▸ equal⟩
  trans := by
    rintro first second third (rfl | ⟨inFirst, inSecond, front⟩) back
    · exact back
    · rcases back with rfl | ⟨-, inThird, back⟩
      · exact .inr ⟨inFirst, inSecond, front⟩
      · exact .inr ⟨inFirst, inThird, transitive _ _ _ inFirst inSecond inThird front back⟩

theorem equals_iff_equalOn {range : Number → Prop} {left right : Number} (inLeft : range left)
    (inRight : range right) : left.equals right = true ↔ EqualOn range left right := by
  constructor
  · exact fun equal => .inr ⟨inLeft, inRight, equal⟩
  · rintro (rfl | ⟨-, -, equal⟩)
    · exact left.equals_self
    · exact equal

/-- Over transitive numbers, no rearrangement is seen. -/
theorem Rearranged.equals {range : Number → Prop} (transitive : EqualityTransitive range)
    {value other : Value} (within : value.Within range) (rearranged : Rearranged value other) :
    value.equals .unordered other = true := by
  have otherWithin := rearranged.within (fun _ _ same inside => same ▸ inside) within
  refine (equals_iff_corresponds (equalOn_equivalence transitive) (fun _ _ => equals_iff_equalOn)
    .unordered within otherWithin).mpr ?_
  exact rearranged.mono fun _ _ => .inl

/-- Three numbers, the middle one first: if equality does not pass from the first to the
last of them, one of the items finds its partner taken. -/
theorem equals_of_numbers_rearranged {first second third : Number}
    (front : first.equals second = true) (back : second.equals third = true)
    (same : (array [number second, number first, number third]).equals .unordered
      (array [number third, number second, number first]) = true) :
    first.equals third = true := by
  simp only [Value.equals, itemsMatch, takeFirst, front, back, if_true, List.length_cons,
    beq_self_eq_true, Bool.true_and] at same
  rw [Number.equals_comm]
  by_contra differ
  simp [differ] at same

theorem MembersMoved.equals (order : ArrayOrder) {value other : Value}
    (distinct : value.DistinctKeys) (moved : MembersMoved value other) :
    value.equals order other = true := by
  induction value generalizing other with
  | null => cases moved; rw [Value.equals]
  | bool flag => cases moved; rw [Value.equals, beq_self_eq_true]
  | string content => cases moved; rw [Value.equals, beq_self_eq_true]
  | number value =>
    obtain ⟨same, rfl, rfl⟩ := moved.number_left
    rw [Value.equals, Number.equals_self]
  | array lefts ih =>
    obtain ⟨rights, rfl, paired⟩ := moved.array_left
    -- Items keep their places, so greedy matching finds each partner where it stands.
    have each := forall₂_imp_of_mem (paired_ordered.mp paired) fun left member right _ pair =>
      ih left member (distinctKeys_array.mp distinct left member) pair
    have same := each.length_eq
    cases order with
    | ordered =>
      rw [Value.equals, same, beq_self_eq_true, Bool.true_and]
      exact (itemsEqual_iff same).mpr each
    | unordered =>
      rw [Value.equals, same, beq_self_eq_true, Bool.true_and, itemsMatch_eq_matchAll]
      exact matchAll_of_forall₂ each
  | object lefts ih =>
    obtain ⟨rights, rfl, paired⟩ := moved.object_left
    obtain ⟨leftKeys, inner⟩ := distinctKeys_object.mp distinct
    have rightKeys := (perm_keys_of_paired paired).nodup_iff.mp leftKeys
    exact (equals_object leftKeys rightKeys).mpr (paired.imp_of_mem fun left member _ _ pair =>
      ⟨pair.1, ih left member (inner left member) pair.2⟩)

/-- Moving members is never seen. Rearranging arrays too is unseen in all values over a range
of numbers just when equality is transitive on the range. -/
theorem rearrangements_unseen (range : Number → Prop) :
    (∀ (order : ArrayOrder) (value other : Value), value.Within range → MembersMoved value other →
      value.equals order other = true)
      ∧ ((∀ value other : Value, value.Within range → Rearranged value other →
          value.equals .unordered other = true) ↔ EqualityTransitive range) := by
  refine ⟨fun order value other within moved => moved.equals order within.distinct, ?_, ?_⟩
  · intro unseen first second third inFirst inSecond inThird front back
    have within : (array [number second, number first, number third]).Within range := by
      refine within_array.mpr ?_
      simp only [List.forall_mem_cons, within_number]
      exact ⟨inSecond, inFirst, inThird, List.forall_mem_nil _⟩
    refine equals_of_numbers_rearranged front back (unseen _ _ within ?_)
    refine corresponds_array.mpr ⟨_, ?_, List.forall₂_same.mpr fun item _ =>
      corresponds_self (fun _ => rfl) item⟩
    exact (List.reverse_perm [number third, number first, number second]).trans
      ((List.Perm.swap (number second) (number first) []).cons (number third))
  · exact fun transitive value other within rearranged => rearranged.equals transitive within

theorem rearrangements_unseen_nested :
    let tenth (digit : Digit) : Value := .number ⟨false, 0, [digit], none⟩
    let inner : Value := .object [("a", tenth 1), ("b", .array [tenth 2, tenth 3])]
    let moved : Value := .object [("b", .array [tenth 3, tenth 2]), ("a", tenth 1)]
    let value : Value := .array [inner, .null]
    let other : Value := .array [.null, moved]
    value.Within (fun number => number.decimal.fits = true) ∧ Rearranged value other
      ∧ value.equals .unordered other = true := by
  intro tenth inner moved value other
  have within : value.Within fun number => number.decimal.fits = true := by decide +kernel
  have same (value : Value) : Rearranged value value := corresponds_self (fun _ => rfl) value
  have items : Rearranged (.array [tenth 2, tenth 3]) (.array [tenth 3, tenth 2]) :=
    .array (List.Perm.swap _ _ []) (.cons (same _) (.cons (same _) .nil))
  have places : List.Perm [("a", tenth 1), ("b", .array [tenth 3, tenth 2])]
      [("b", .array [tenth 3, tenth 2]), ("a", tenth 1)] := List.Perm.swap _ _ []
  have members : Rearranged inner moved :=
    .object places rfl (.cons (same _) (.cons items .nil))
  have rearranged : Rearranged value other :=
    .array (List.Perm.swap _ _ []) (.cons members (.cons (same _) .nil))
  exact ⟨within, rearranged, ((rearrangements_unseen _).2.mpr equalityTransitive_fits) value other
    within rearranged⟩

/-- Beyond the precision it can be seen: the smallest number is near both others, and takes
the partner of the one that has no other. -/
theorem rearrangement_seen :
    let tiny : Value := .number ⟨false, 1, [], some ⟨true, 3, [0]⟩⟩
    let small : Value := .number ⟨false, 1, [], some ⟨true, 1, [6]⟩⟩
    let zero : Value := .number ⟨false, 0, [], none⟩
    let value : Value := .array [tiny, zero, small]
    let other : Value := .array [small, tiny, zero]
    value.DistinctKeys ∧ Rearranged value other ∧ value.equals .unordered other = false
      ∧ other.equals .unordered value = false := by
  intro tiny small zero value other
  refine ⟨by decide, ?_, by decide +kernel, by decide +kernel⟩
  refine .array (((List.Perm.swap small zero []).cons tiny).trans
    (List.Perm.swap small tiny [zero])) ?_
  exact List.forall₂_same.mpr fun item _ => corresponds_self (fun _ => rfl) item

end JsonTree.Value
