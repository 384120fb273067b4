import JsonTree.Proofs.Path.Printing
import JsonTree.Proofs.Path.Traversal
import JsonTree.Proofs.Pointer.Naming

/-! Paths and pointers that name one position.

A path that has one selector for each step of a position selects at each step the one child
that the step leads to, whatever its key. Its canonical text is read as these selectors and
the text of the pointer as the tokens of the steps, so both texts lead to one value.
-/

set_option autoImplicit false

namespace JsonTree

/-- The selectors of a single step. An item has two: by its index, and by how far in front
of the end of the array it stands. -/
inductive Step.SelectedBy (container : Value) : Step → Selector → Prop where
  | member (key : String) : SelectedBy container (.member key) (.property key)
  | front (index : Nat) : SelectedBy container (.item index) (.index index)
  | back (index : Nat) :
      SelectedBy container (.item index) (.index (index - container.items.length))

def Step.selector : Step → Selector
  | .member key => .property key
  | .item index => .index index

namespace Value

inductive SelectedBy : Value → List Step → List Selector → Prop where
  | here (value : Value) : SelectedBy value [] []
  | down {value inner : Value} {step : Step} {steps : List Step} {selector : Selector}
      {selectors : List Selector} : value.Has step inner → step.SelectedBy value selector →
      inner.SelectedBy steps selectors → value.SelectedBy (step :: steps) (selector :: selectors)

theorem item?_eq_of_place {value item : Value} {place : Nat} {position : Int}
    (found : value.items[place]? = some item)
    (standing : position = place ∨ position = place - value.items.length) :
    value.item? position = some item := by
  have inside := (List.getElem?_eq_some_iff.mp found).1
  have counted : (if position < 0 then position + (value.items.length : Int) else position)
      = place := by
    split <;> omega
  have notBefore : ¬ (place : Int) < 0 := by omega
  simp only [item?, counted, if_neg notBefore]
  exact found

theorem Has.select {value inner : Value} {step : Step} {selector : Selector}
    (distinct : value.DistinctKeys) (has : value.Has step inner)
    (selected : step.SelectedBy value selector) (last : Bool) :
    selector.select last value = [inner] := by
  cases has with
  | member held =>
    cases selected
    have found := Members.get?_of_mem (distinctKeys_object.mp distinct).1 held
    simp [Selector.select, member?, object?, found]
  | @item items index _ found =>
    have standing : (array items).items[index]? = some inner := found
    cases selected with
    | front => rw [Selector.select, item?_eq_of_place standing (.inl rfl)]; rfl
    | back => rw [Selector.select, item?_eq_of_place standing (.inr rfl)]; rfl

theorem Has.printable {value inner : Value} {step : Step} {selector : Selector}
    (bounded : value.ArraysWithin greatestInt64) (has : value.Has step inner)
    (selected : step.SelectedBy value selector) :
    selector.Printable ∧ selector.reprinted = selector := by
  cases has with
  | member => cases selected; exact ⟨trivial, rfl⟩
  | @item items index _ found =>
    have bound : (items.length : Int) ≤ greatestInt64 := (everywhere_iff.mp bounded).1
    have inside := (List.getElem?_eq_some_iff.mp found).1
    have same : (array items).items = items := rfl
    unfold greatestInt64 at bound
    cases selected with
    | front | back =>
      refine ⟨?_, rfl⟩
      simp only [Selector.Printable, leastInt64, greatestInt64, same]
      omega

/-- Selectors of a position select what stands there and nothing else. -/
theorem Reaches.selectAll_eq {value found : Value} {steps : List Step} {selectors : List Selector}
    (distinct : value.DistinctKeys) (reaches : value.Reaches steps found)
    (selected : value.SelectedBy steps selectors) : selectAll selectors [value] = [found] := by
  induction reaches generalizing selectors with
  | here value => cases selected; rfl
  | down has _ ih =>
    cases selected with
    | down again first rest =>
      obtain rfl := has.inner_eq distinct again
      rw [selectAll_single, has.select distinct first]
      exact ih (has.everywhere distinct) rest

theorem SelectedBy.printable {value : Value} {steps : List Step} {selectors : List Selector}
    (bounded : value.ArraysWithin greatestInt64) (selected : value.SelectedBy steps selectors) :
    (∀ selector ∈ selectors, selector.Printable)
      ∧ selectors.map Selector.reprinted = selectors := by
  induction selected with
  | here => exact ⟨List.forall_mem_nil _, rfl⟩
  | down has first _ ih =>
    obtain ⟨printable, same⟩ := has.printable bounded first
    obtain ⟨others, rest⟩ := ih (has.everywhere bounded)
    exact ⟨List.forall_mem_cons.mpr ⟨printable, others⟩, by rw [List.map_cons, same, rest]⟩

theorem Reaches.selectedBy {value found : Value} {steps : List Step}
    (reaches : value.Reaches steps found) : value.SelectedBy steps (steps.map Step.selector) := by
  induction reaches with
  | here value => exact .here value
  | @down _ _ _ step _ has _ ih =>
    refine .down has ?_ ih
    cases step with
    | member key => exact .member key
    | item index => exact .front index

end Value

namespace Path

theorem parse_of_segments {path : Path} {selectors : List Selector}
    (derived : Segments (selectorsChars false path.selectors) selectors) :
    parse path.canonical = .ok ⟨path.canonical, selectors⟩ := by
  refine parse_eq_ok_iff.mpr ⟨rfl, _, ?_, readSelectors_eq_ok_iff.mpr derived⟩
  rw [canonical, String.toList_ofList, chars]

theorem toList_cursor (path : Path) (document : Value) :
    (path.cursor document).toList = path.results document :=
  (Cursor.drain_eq_pending _).trans (path.pending_cursor document)

/-- At every position of a document the two languages name one value. Selectors for its steps
can be given, and whichever are, their canonical text is read as a path that selects the value
alone, while the text of the pointer is read as a pointer that leads to it. -/
theorem addresses_agree {document found : Value} {steps : List Step}
    (distinct : document.DistinctKeys) (bounded : document.ArraysWithin greatestInt64)
    (reaches : document.Reaches steps found) :
    document.SelectedBy steps (steps.map Step.selector)
      ∧ ∀ path : Path, document.SelectedBy steps path.selectors →
        (∃ compiled, parse path.canonical = .ok compiled
          ∧ (compiled.cursor document).toList = [found])
        ∧ ∃ pointer, Pointer.parse (Pointer.ofSteps steps).text = .ok pointer
          ∧ pointer.get document = .ok found := by
  have nameable : document.Nameable := ⟨distinct, bounded.mono (by decide)⟩
  refine ⟨reaches.selectedBy, fun path selected => ⟨?_, ?_⟩⟩
  · obtain ⟨printable, same⟩ := selected.printable bounded
    have derived := (segments_selectorsChars printable).1
    rw [same] at derived
    exact ⟨_, parse_of_segments derived,
      (toList_cursor _ document).trans (reaches.selectAll_eq distinct selected)⟩
  · exact ⟨_, Pointer.parse_text _, Pointer.get_ofSteps nameable reaches⟩

theorem addresses_agree_metacharacters :
    let document : Value :=
      .object [("", .array [.null, .object [("0", .null), ("it's/~[\\]", .array [.bool true])]])]
    let steps : List Step := [.member "", .item 1, .member "it's/~[\\]", .item 0]
    let path : Path := ⟨"", [.property "", .index (-1), .property "it's/~[\\]", .index 0]⟩
    document.DistinctKeys ∧ document.ArraysWithin greatestInt64
      ∧ document.Reaches steps (.bool true) ∧ document.SelectedBy steps path.selectors
      ∧ path.canonical = "$[''][-1]['it\\'s/~[\\\\]'][0]"
      ∧ (Pointer.ofSteps steps).text = "//1/it's~1~0[\\]/0"
      ∧ (∃ compiled, parse path.canonical = .ok compiled
        ∧ (compiled.cursor document).toList = [.bool true])
      ∧ ∃ pointer, Pointer.parse (Pointer.ofSteps steps).text = .ok pointer
        ∧ pointer.get document = .ok (.bool true) := by
  intro document steps path
  have distinct : document.DistinctKeys := by decide
  have bounded : document.ArraysWithin greatestInt64 := by decide
  have reaches : document.Reaches steps (.bool true) :=
    .down (.member (.head _)) <| .down (.item rfl) <|
      .down (.member (.tail _ (.head _))) <| .down (.item rfl) <| .here _
  have selected : document.SelectedBy steps path.selectors :=
    .down (.member (.head _)) (.member _) <| .down (.item rfl) (.back 1) <|
      .down (.member (.tail _ (.head _))) (.member _) <| .down (.item rfl) (.front 0) <| .here _
  exact ⟨distinct, bounded, reaches, selected, by decide +kernel, by decide +kernel,
    (addresses_agree distinct bounded reaches).2 path selected⟩

end Path

end JsonTree
