import JsonTree.Proofs.Value.Everywhere

/-! The positions of a value.

A position is the way to it from the top: one step for each container, to the member of a
key or to the item at an index. It depends on what the containers hold and not on how one
language or another names it.
-/

set_option autoImplicit false

namespace JsonTree

inductive Step where
  | member (key : String)
  | item (index : Nat)
  deriving DecidableEq, Repr

namespace Value

inductive Has : Value → Step → Value → Prop where
  | member {members : Members} {key : String} {inner : Value} :
      (key, inner) ∈ members → Has (.object members) (.member key) inner
  | item {items : List Value} {index : Nat} {inner : Value} :
      items[index]? = some inner → Has (.array items) (.item index) inner

/-- What stands at the end of steps that are taken one after the other. -/
inductive Reaches : Value → List Step → Value → Prop where
  | here (value : Value) : Reaches value [] value
  | down {value inner found : Value} {step : Step} {steps : List Step} :
      value.Has step inner → inner.Reaches steps found → value.Reaches (step :: steps) found

theorem Has.inner_eq {value first second : Value} {step : Step} (distinct : value.DistinctKeys)
    (has : value.Has step first) (again : value.Has step second) : first = second := by
  cases has with
  | member held =>
    cases again with
    | member heldAgain =>
      have keys := (distinctKeys_object.mp distinct).1
      have found := Members.get?_of_mem keys held
      exact Option.some.inj (found.symm.trans (Members.get?_of_mem keys heldAgain))
  | item found =>
    cases again with
    | item foundAgain => exact Option.some.inj (found.symm.trans foundAgain)

theorem mem_children_iff {value inner : Value} :
    inner ∈ value.children ↔ ∃ step, value.Has step inner := by
  constructor
  · intro child
    cases value with
    | object members =>
      obtain ⟨⟨key, _⟩, held, rfl⟩ := List.mem_map.mp child
      exact ⟨.member key, .member held⟩
    | array items =>
      obtain ⟨index, found⟩ := List.mem_iff_getElem?.mp child
      exact ⟨.item index, .item found⟩
    | _ => exact absurd child List.not_mem_nil
  · rintro ⟨step, has⟩
    cases has with
    | member held => exact List.mem_map.mpr ⟨_, held, rfl⟩
    | item found => exact List.mem_of_getElem? found

theorem Has.everywhere {holds : Value → Prop} {value inner : Value} {step : Step}
    (whole : value.Everywhere holds) (has : value.Has step inner) : inner.Everywhere holds :=
  (everywhere_iff.mp whole).2 inner (mem_children_iff.mpr ⟨step, has⟩)

theorem Reaches.everywhere {holds : Value → Prop} {value found : Value} {steps : List Step}
    (whole : value.Everywhere holds) (reaches : value.Reaches steps found) :
    found.Everywhere holds := by
  induction reaches with
  | here => exact whole
  | down has _ ih => exact ih (has.everywhere whole)

theorem Reaches.append {value middle found : Value} {front back : List Step}
    (first : value.Reaches front middle) (further : middle.Reaches back found) :
    value.Reaches (front ++ back) found := by
  induction first with
  | here => exact further
  | down has _ ih => exact .down has (ih further)

/-- The positions are those of the value itself and of everything below it. -/
theorem exists_reaches_iff {value inner : Value} :
    (∃ steps, value.Reaches steps inner) ↔ inner ∈ value :: value.descendants := by
  constructor
  · rintro ⟨steps, reaches⟩
    induction reaches with
    | here value => exact List.mem_cons_self
    | down has _ below =>
      have child := mem_children_iff.mpr ⟨_, has⟩
      exact List.mem_cons_of_mem _ (mem_descendants_iff.mpr ⟨_, child, below⟩)
  · intro inside
    induction value using induction_children with
    | step value ih =>
      rcases List.mem_cons.mp inside with rfl | below
      · exact ⟨[], .here _⟩
      · obtain ⟨child, held, further⟩ := mem_descendants_iff.mp below
        obtain ⟨step, has⟩ := mem_children_iff.mp held
        obtain ⟨steps, reaches⟩ := ih child held further
        exact ⟨step :: steps, .down has reaches⟩

def ArraysWithin (bound : Int) (value : Value) : Prop :=
  value.Everywhere fun inner => (inner.items.length : Int) ≤ bound

instance (bound : Int) (value : Value) : Decidable (value.ArraysWithin bound) :=
  inferInstanceAs (Decidable (value.Everywhere fun inner => (inner.items.length : Int) ≤ bound))

theorem ArraysWithin.mono {value : Value} {bound larger : Int} (bounded : value.ArraysWithin bound)
    (le : bound ≤ larger) : value.ArraysWithin larger :=
  fun inner inside => Int.le_trans (bounded inner inside) le

end Value

end JsonTree
