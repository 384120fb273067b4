import Mathlib.Data.List.Forall2
import JsonTree.Path.Selection
import JsonTree.Proofs.Value.RoundTrip

/-! Properties of a document that all values selected from it share.

A selected value is the document or stands below it. So what children inherit from what
holds them, each selected value has; and the values that a text can hold are of this kind.
-/

set_option autoImplicit false

namespace JsonTree

section

variable {kept : Value → Prop}
  (down : ∀ value, kept value → ∀ child ∈ value.children, kept child)

include down

theorem Selector.select_inherited (selector : Selector) (last : Bool) {value : Value}
    (top : kept value) : ∀ inner ∈ selector.select last value, kept inner := by
  have items : ∀ item ∈ value.items, kept item := by
    rcases value.items_eq_children_or_nil with same | none
    · exact same ▸ down value top
    · exact none ▸ List.forall_mem_nil _
  have below := Value.inherited down top
  intro inner selected
  cases selector with
  | property name =>
    exact down value top inner (Value.member_mem_children (Option.mem_toList.mp selected))
  | index position => exact items inner (Value.item_mem_items (Option.mem_toList.mp selected))
  | wildcard => exact down value top inner selected
  | descent =>
    cases last with
    | true => exact below inner selected
    | false => exact List.forall_mem_cons.mpr ⟨top, below⟩ inner selected
  | filter condition => exact items inner (List.mem_filter.mp selected).1

theorem selectAll_inherited (selectors : List Selector) {values : List Value}
    (tops : ∀ value ∈ values, kept value) : ∀ inner ∈ selectAll selectors values, kept inner := by
  induction selectors generalizing values with
  | nil => exact tops
  | cons selector rest ih =>
    refine ih (List.forall_mem_flatMap.mpr fun value member => ?_)
    exact selector.select_inherited down rest.isEmpty (tops value member)

end

theorem Path.results_reread {text : String} {document : Value}
    (read : Value.parse text = .ok document) (path : Path) :
    List.Forall₂ (fun line value => Value.parse line = .ok value)
      ((path.results document).map Value.compact) (path.results document) := by
  have fits : ∀ value ∈ path.results document, value.Fits 0 :=
    selectAll_inherited (fun _ fits _ held => fits.child held) path.selectors
      (List.forall_mem_singleton.mpr (Value.fits_of_parse read))
  rw [List.forall₂_map_left_iff, List.forall₂_same]
  exact fun value selected => Value.parse_written .compact (fits value selected)

end JsonTree
