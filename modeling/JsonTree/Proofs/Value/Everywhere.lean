import JsonTree.Path.Selection
import JsonTree.Proofs.Value.Members

/-! Induction over values, and properties that hold everywhere in a value. -/

set_option autoImplicit false

namespace JsonTree.Value

@[induction_eliminator]
theorem induction {motive : Value → Prop} (null : motive .null)
    (bool : ∀ flag, motive (.bool flag)) (number : ∀ value, motive (.number value))
    (string : ∀ content, motive (.string content))
    (array : ∀ items, (∀ item ∈ items, motive item) → motive (.array items))
    (object : ∀ members, (∀ member ∈ members, motive member.2) → motive (.object members))
    (value : Value) : motive value :=
  @rec motive (fun items => ∀ item ∈ items, motive item)
    (fun members => ∀ member ∈ members, motive member.2) (fun member => motive member.2)
    null bool number string array object (List.forall_mem_nil _)
    (fun _ _ first rest => List.forall_mem_cons.mpr ⟨first, rest⟩) (List.forall_mem_nil _)
    (fun _ _ first rest => List.forall_mem_cons.mpr ⟨first, rest⟩) (fun _ _ inner => inner) value

/-- Induction with one hypothesis for the children, whatever holds them. -/
theorem induction_children {motive : Value → Prop}
    (step : ∀ value, (∀ child ∈ value.children, motive child) → motive value) (value : Value) :
    motive value := by
  induction value with
  | array items ih => exact step _ ih
  | object members ih => exact step _ (List.forall_mem_map.mpr ih)
  | _ => exact step _ (List.forall_mem_nil _)

theorem mem_descendants_iff {value inner : Value} :
    inner ∈ value.descendants ↔ ∃ child ∈ value.children, inner ∈ child :: child.descendants := by
  rw [descendants_eq, List.mem_flatMap]

/-- What children inherit, everything below inherits. -/
theorem inherited {kept : Value → Prop}
    (down : ∀ value, kept value → ∀ child ∈ value.children, kept child) {value : Value}
    (top : kept value) : ∀ inner ∈ value.descendants, kept inner := by
  induction value using induction_children with
  | step value ih =>
    intro inner below
    obtain ⟨child, held, inside⟩ := mem_descendants_iff.mp below
    rcases List.mem_cons.mp inside with rfl | deeper
    · exact down value top inner held
    · exact ih child held (down value top child held) inner deeper

/-- A property holds of a value and of everything below it. -/
def Everywhere (holds : Value → Prop) (value : Value) : Prop :=
  ∀ inner ∈ value :: value.descendants, holds inner

instance (holds : Value → Prop) [DecidablePred holds] (value : Value) :
    Decidable (value.Everywhere holds) :=
  inferInstanceAs (Decidable (∀ inner ∈ value :: value.descendants, holds inner))

variable {holds : Value → Prop}

theorem everywhere_iff {value : Value} :
    value.Everywhere holds ↔ holds value ∧ ∀ child ∈ value.children, child.Everywhere holds := by
  rw [Everywhere, List.forall_mem_cons, descendants_eq]
  refine and_congr_right fun _ => ?_
  constructor
  · intro below child member inner inside
    exact below inner (List.mem_flatMap.mpr ⟨child, member, inside⟩)
  · intro each inner inside
    obtain ⟨child, member, inside⟩ := List.mem_flatMap.mp inside
    exact each child member inner inside

theorem everywhere_array {items : List Value} :
    (array items).Everywhere holds
      ↔ holds (array items) ∧ ∀ item ∈ items, item.Everywhere holds := everywhere_iff

theorem everywhere_object {members : Members} :
    (object members).Everywhere holds
      ↔ holds (object members) ∧ ∀ member ∈ members, member.2.Everywhere holds := by
  rw [everywhere_iff]
  exact and_congr_right fun _ => List.forall_mem_map

def KeysObey (law : List String → Prop) (value : Value) : Prop :=
  value.Everywhere fun inner => law (Members.keys inner.members)

instance (law : List String → Prop) [DecidablePred law] (value : Value) :
    Decidable (value.KeysObey law) :=
  inferInstanceAs (Decidable (value.Everywhere fun inner => law (Members.keys inner.members)))

theorem keysObey_array {law : List String → Prop} {items : List Value} :
    (array items).KeysObey law ↔ law [] ∧ ∀ item ∈ items, item.KeysObey law :=
  everywhere_array

theorem keysObey_object {law : List String → Prop} {members : Members} :
    (object members).KeysObey law
      ↔ law (Members.keys members) ∧ ∀ member ∈ members, member.2.KeysObey law :=
  everywhere_object

def DistinctKeys (value : Value) : Prop :=
  value.Everywhere fun inner => (Members.keys inner.members).Nodup

instance (value : Value) : Decidable value.DistinctKeys :=
  inferInstanceAs (Decidable (value.Everywhere fun inner => (Members.keys inner.members).Nodup))

theorem distinctKeys_array {items : List Value} :
    (array items).DistinctKeys ↔ ∀ item ∈ items, item.DistinctKeys :=
  everywhere_array.trans (and_iff_right List.nodup_nil)

theorem distinctKeys_object {members : Members} :
    (object members).DistinctKeys
      ↔ (Members.keys members).Nodup ∧ ∀ member ∈ members, member.2.DistinctKeys :=
  everywhere_object

def NumbersIn (range : Number → Prop) (value : Value) : Prop :=
  value.Everywhere fun inner => ∀ number ∈ inner.number?, range number

instance (range : Number → Prop) [DecidablePred range] (value : Value) :
    Decidable (value.NumbersIn range) :=
  inferInstanceAs (Decidable (value.Everywhere fun inner =>
    ∀ number ∈ inner.number?, range number))

structure Within (range : Number → Prop) (value : Value) : Prop where
  distinct : value.DistinctKeys
  numbers : value.NumbersIn range

instance (range : Number → Prop) [DecidablePred range] (value : Value) :
    Decidable (value.Within range) :=
  decidable_of_iff (value.DistinctKeys ∧ value.NumbersIn range)
    ⟨fun both => ⟨both.1, both.2⟩, fun within => ⟨within.distinct, within.numbers⟩⟩

section

variable {range : Number → Prop}

theorem within_number {value : Number} : (number value).Within range ↔ range value := by
  constructor
  · exact fun within => within.numbers (number value) List.mem_cons_self value rfl
  · intro inside
    refine ⟨everywhere_iff.mpr ⟨List.nodup_nil, List.forall_mem_nil _⟩,
      everywhere_iff.mpr ⟨?_, List.forall_mem_nil _⟩⟩
    rintro _ ⟨⟩
    exact inside

theorem within_array {items : List Value} :
    (array items).Within range ↔ ∀ item ∈ items, item.Within range := by
  have numbers : (array items).NumbersIn range ↔ ∀ item ∈ items, item.NumbersIn range :=
    everywhere_array.trans (and_iff_right (by simp [number?]))
  constructor
  · exact fun within item member => ⟨distinctKeys_array.mp within.distinct item member,
      numbers.mp within.numbers item member⟩
  · exact fun each => ⟨distinctKeys_array.mpr fun item member => (each item member).distinct,
      numbers.mpr fun item member => (each item member).numbers⟩

theorem within_object {members : Members} :
    (object members).Within range
      ↔ (Members.keys members).Nodup ∧ ∀ member ∈ members, member.2.Within range := by
  have numbers : (object members).NumbersIn range
      ↔ ∀ member ∈ members, member.2.NumbersIn range :=
    everywhere_object.trans (and_iff_right (by simp [number?]))
  constructor
  · intro within
    obtain ⟨keys, inner⟩ := distinctKeys_object.mp within.distinct
    exact ⟨keys, fun member inside =>
      ⟨inner member inside, numbers.mp within.numbers member inside⟩⟩
  · rintro ⟨keys, each⟩
    exact ⟨distinctKeys_object.mpr ⟨keys, fun member inside => (each member inside).distinct⟩,
      numbers.mpr fun member inside => (each member inside).numbers⟩

end

end JsonTree.Value
