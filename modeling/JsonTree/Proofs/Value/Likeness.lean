import JsonTree.Proofs.Value.Correspondence

/-! Values of which equality is exact.

Where no key stands twice and the precision holds every number, ordered equality is an
equivalence, and two containers are equal just when the same places hold equal values.
-/

set_option autoImplicit false

namespace JsonTree.Value

def NumbersFit (value : Value) : Prop :=
  value.Everywhere fun inner => ∀ number ∈ inner.number?, number.decimal.fits = true

instance (value : Value) : Decidable value.NumbersFit :=
  inferInstanceAs (Decidable (value.Everywhere fun inner =>
    ∀ number ∈ inner.number?, number.decimal.fits = true))

/-- Nothing in the value keeps equality from being exact. -/
structure Definite (value : Value) : Prop where
  distinct : value.DistinctKeys
  fit : value.NumbersFit

theorem definite_iff {value : Value} :
    value.Definite ↔ value.Within fun number => number.decimal.fits = true :=
  ⟨fun definite => ⟨definite.distinct, definite.fit⟩,
    fun within => ⟨within.distinct, within.numbers⟩⟩

theorem definite_array {items : List Value} :
    (array items).Definite ↔ ∀ item ∈ items, item.Definite := by
  simp only [definite_iff, within_array]

theorem definite_object {members : Members} :
    (object members).Definite
      ↔ (Members.keys members).Nodup ∧ ∀ member ∈ members, member.2.Definite := by
  simp only [definite_iff, within_object]

/-- Equal values of which equality is exact. -/
structure Alike (left right : Value) : Prop where
  leftDefinite : left.Definite
  rightDefinite : right.Definite
  equal : left.equals .ordered right = true

theorem Alike.kind {left right : Value} (alike : Alike left right) : left.kind = right.kind := by
  have equal := alike.equal
  cases left <;> cases right <;> first | rfl | simp [equals] at equal

-- Equality of numbers in general is not transitive: it counts near floating-point numbers as
-- one. Where the precision holds them, normal forms are compared, and those are.

/-- To be alike is to correspond by the normal forms of the numbers. -/
theorem alike_iff {left right : Value} :
    Alike left right ↔ left.Definite ∧ right.Definite
      ∧ Corresponds .ordered (fun left right => left.decimal = right.decimal) left right := by
  have forms : Equivalence fun left right : Number => left.decimal = right.decimal :=
    ⟨fun _ => rfl, Eq.symm, Eq.trans⟩
  have exact (leftDefinite : left.Definite) (rightDefinite : right.Definite) :=
    equals_iff_corresponds forms (fun _ _ => Number.equals_iff_of_fits) .ordered
      (definite_iff.mp leftDefinite) (definite_iff.mp rightDefinite)
  constructor
  · rintro ⟨leftDefinite, rightDefinite, equal⟩
    exact ⟨leftDefinite, rightDefinite, (exact leftDefinite rightDefinite).mp equal⟩
  · rintro ⟨leftDefinite, rightDefinite, same⟩
    exact ⟨leftDefinite, rightDefinite, (exact leftDefinite rightDefinite).mpr same⟩

theorem alike_array {lefts rights : List Value} :
    Alike (array lefts) (array rights) ↔ List.Forall₂ Alike lefts rights := by
  rw [alike_iff, corresponds_array, paired_ordered, definite_array, definite_array]
  constructor
  · rintro ⟨leftDefinite, rightDefinite, same⟩
    exact forall₂_imp_of_mem same fun left inLefts right inRights pair =>
      alike_iff.mpr ⟨leftDefinite left inLefts, rightDefinite right inRights, pair⟩
  · intro each
    obtain ⟨onLeft, onRight⟩ := exists_of_forall₂ each
    refine ⟨fun left inLefts => ?_, fun right inRights => ?_,
      each.imp fun _ _ alike => (alike_iff.mp alike).2.2⟩
    · obtain ⟨right, -, alike⟩ := onLeft left inLefts
      exact alike.leftDefinite
    · obtain ⟨left, -, alike⟩ := onRight right inRights
      exact alike.rightDefinite

theorem alike_object {lefts rights : Members} :
    Alike (object lefts) (object rights)
      ↔ (Members.keys lefts).Nodup ∧ (Members.keys rights).Nodup
        ∧ ∀ key, Option.Rel Alike (lefts.get? key) (rights.get? key) := by
  rw [alike_iff, definite_object, definite_object, corresponds_object]
  constructor
  · rintro ⟨⟨leftKeys, leftDefinite⟩, ⟨rightKeys, rightDefinite⟩, paired⟩
    refine ⟨leftKeys, rightKeys, (paired_members_iff leftKeys rightKeys).mp ?_⟩
    exact paired.imp_of_mem fun left inLefts right inRights pair =>
      ⟨pair.1, alike_iff.mpr ⟨leftDefinite left inLefts, rightDefinite right inRights, pair.2⟩⟩
  · rintro ⟨leftKeys, rightKeys, each⟩
    have paired := (paired_members_iff leftKeys rightKeys).mpr each
    refine ⟨⟨leftKeys, fun left inLefts => ?_⟩, ⟨rightKeys, fun right inRights => ?_⟩,
      paired.imp_of_mem fun _ _ _ _ pair => ⟨pair.1, (alike_iff.mp pair.2).2.2⟩⟩
    · obtain ⟨right, -, -, alike⟩ := paired.exists_right inLefts
      exact alike.leftDefinite
    · obtain ⟨left, -, -, alike⟩ := paired.exists_left inRights
      exact alike.rightDefinite

theorem Alike.eq_of_leaf {left right : Value} (alike : Alike left right)
    (leaf : left.isContainer = false) (noNumber : left.number? = none) : right = left := by
  have kinds := alike.kind
  have equal := alike.equal
  cases left with
  | null => cases right <;> first | rfl | contradiction
  | bool flag =>
    cases right with
    | bool other => rw [equals, beq_iff_eq] at equal; rw [equal]
    | _ => contradiction
  | string content =>
    cases right with
    | string other => rw [equals, beq_iff_eq] at equal; rw [equal]
    | _ => contradiction
  | _ => contradiction

theorem Alike.number_left {value : Number} {other : Value} (alike : Alike (number value) other) :
    ∃ second, other = number second := by
  have kinds := alike.kind
  cases other with
  | number second => exact ⟨second, rfl⟩
  | _ => contradiction

theorem Alike.array_left {items : List Value} {other : Value} (alike : Alike (array items) other) :
    ∃ others, other = array others ∧ List.Forall₂ Alike items others := by
  have kinds := alike.kind
  cases other with
  | array others => exact ⟨others, rfl, alike_array.mp alike⟩
  | _ => contradiction

theorem Alike.object_left {members : Members} {other : Value}
    (alike : Alike (object members) other) :
    ∃ others, other = object others ∧ (Members.keys members).Nodup ∧ (Members.keys others).Nodup
      ∧ ∀ key, Option.Rel Alike (members.get? key) (Members.get? key others) := by
  have kinds := alike.kind
  cases other with
  | object others => exact ⟨others, rfl, alike_object.mp alike⟩
  | _ => contradiction

theorem Alike.symm {left right : Value} (alike : Alike left right) : Alike right left := by
  obtain ⟨leftDefinite, rightDefinite, same⟩ := alike_iff.mp alike
  exact alike_iff.mpr ⟨rightDefinite, leftDefinite, same.symm fun _ _ => Eq.symm⟩

theorem Alike.trans {first second third : Value} (front : Alike first second)
    (back : Alike second third) : Alike first third := by
  obtain ⟨firstDefinite, -, before⟩ := alike_iff.mp front
  obtain ⟨-, thirdDefinite, after⟩ := alike_iff.mp back
  exact alike_iff.mpr ⟨firstDefinite, thirdDefinite, before.trans after fun _ _ _ => Eq.trans⟩

/-- Equality does not tell values apart that are alike. -/
theorem Alike.equals_eq {left left' right right' : Value} (lefts : Alike left left')
    (rights : Alike right right') :
    left.equals .ordered right = left'.equals .ordered right' := by
  apply Bool.eq_iff_iff.mpr
  constructor
  · intro equal
    have alike : Alike left right := ⟨lefts.leftDefinite, rights.leftDefinite, equal⟩
    exact ((lefts.symm.trans alike).trans rights).equal
  · intro equal
    have alike : Alike left' right' := ⟨lefts.rightDefinite, rights.rightDefinite, equal⟩
    exact ((lefts.trans alike).trans rights.symm).equal

end JsonTree.Value
