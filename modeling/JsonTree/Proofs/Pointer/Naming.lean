import Mathlib.Data.Set.Function
import JsonTree.Proofs.Pointer.Text
import JsonTree.Proofs.Pointer.Writing
import JsonTree.Proofs.Value.Positions

/-! Each position of a value has one pointer, and each pointer that leads anywhere is the
one of a position.

A container spells each of its steps by one token and none by two: a member by its key, an
item by its index without superfluous zeros. Along a way the tokens therefore tell the steps,
and the text of a pointer tells its tokens.
-/

set_option autoImplicit false

namespace JsonTree

def Step.token : Step → String
  | .member key => key
  | .item index => natText index

namespace Pointer

def ofSteps (steps : List Step) : Pointer := ⟨steps.map Step.token⟩

end Pointer

namespace Value

/-- A value whose positions pointers tell from each other: no object has a key twice, and
indices of 64 bits reach every item. -/
structure Nameable (value : Value) : Prop where
  distinct : value.DistinctKeys
  bounded : value.ArraysWithin greatestUInt64

theorem Nameable.child {value inner : Value} (nameable : value.Nameable)
    (held : inner ∈ value.children) : inner.Nameable :=
  ⟨(everywhere_iff.mp nameable.distinct).2 inner held,
    (everywhere_iff.mp nameable.bounded).2 inner held⟩

theorem Nameable.index_le {items : List Value} (nameable : (array items).Nameable) {index : Nat}
    {inner : Value} (found : items[index]? = some inner) : (index : Int) ≤ greatestUInt64 := by
  have bound : (items.length : Int) ≤ greatestUInt64 := (everywhere_iff.mp nameable.bounded).1
  have inside := (List.getElem?_eq_some_iff.mp found).1
  omega

theorem child_eq_ok_iff_has {value inner : Value} {token : String} (nameable : value.Nameable) :
    value.child token = .ok inner ↔ ∃ step : Step, step.token = token ∧ value.Has step inner := by
  constructor
  · intro found
    cases child_eq_ok_iff.mp found with
    | member => exact ⟨.member token, rfl, .member (by simp)⟩
    | item front back named =>
      obtain ⟨spelled, -⟩ := ArrayPlace.ofToken_eq_index_iff.mp named
      exact ⟨.item front.length, spelled.symm, .item (by simp)⟩
  · rintro ⟨step, rfl, has⟩
    cases has with
    | member held =>
      have keys := (distinctKeys_object.mp nameable.distinct).1
      simp only [Step.token, child, Members.get?_of_mem keys held]
    | item found =>
      rw [Step.token, child_array_natText (nameable.index_le found), found]

theorem Has.step_eq {value first second : Value} {step other : Step} (nameable : value.Nameable)
    (has : value.Has step first) (hasOther : value.Has other second)
    (same : step.token = other.token) : step = other := by
  cases has with
  | member => cases hasOther; exact congrArg Step.member same
  | @item _ index _ found =>
    cases hasOther with
    | @item _ place _ foundOther =>
      have read := ArrayPlace.ofToken_natText (nameable.index_le found)
      rw [show natText index = natText place from same,
        ArrayPlace.ofToken_natText (nameable.index_le foundOther)] at read
      rw [ArrayPlace.index.inj (Except.ok.inj read)]

/-- Tokens lead where the steps lead that they spell. -/
theorem get_eq_ok_iff_reaches {value found : Value} {tokens : List String}
    (nameable : value.Nameable) :
    value.get tokens = .ok found
      ↔ ∃ steps, steps.map Step.token = tokens ∧ value.Reaches steps found := by
  induction tokens generalizing value with
  | nil =>
    constructor
    · intro read
      obtain rfl := Except.ok.inj read
      exact ⟨[], rfl, .here value⟩
    · rintro ⟨steps, spelled, reaches⟩
      obtain rfl := List.map_eq_nil_iff.mp spelled
      cases reaches
      rfl
  | cons token rest ih =>
    constructor
    · intro read
      obtain ⟨inner, first, further⟩ := get_cons_eq_ok read
      obtain ⟨step, rfl, has⟩ := (child_eq_ok_iff_has nameable).mp first
      have below := nameable.child (mem_children_iff.mpr ⟨step, has⟩)
      obtain ⟨steps, rfl, reaches⟩ := (ih below).mp further
      exact ⟨step :: steps, rfl, .down has reaches⟩
    · rintro ⟨steps, spelled, reaches⟩
      obtain ⟨step, steps, rfl, rfl, rfl⟩ := List.map_eq_cons_iff.mp spelled
      cases reaches with
      | down has reaches =>
        have below := nameable.child (mem_children_iff.mpr ⟨step, has⟩)
        rw [get_cons, (child_eq_ok_iff_has nameable).mpr ⟨step, rfl, has⟩]
        exact (ih below).mpr ⟨steps, rfl, reaches⟩

/-- Positions are spelled apart. -/
theorem Reaches.steps_eq {value first second : Value} {steps others : List Step}
    (nameable : value.Nameable) (reaches : value.Reaches steps first)
    (reachesOther : value.Reaches others second)
    (same : steps.map Step.token = others.map Step.token) : steps = others := by
  induction reaches generalizing others with
  | here value => exact (List.map_eq_nil_iff.mp same.symm).symm
  | @down value inner _ step steps has reaches ih =>
    cases reachesOther with
    | here => exact absurd same (List.cons_ne_nil _ _)
    | @down _ beside _ other others hasOther reachesOther =>
      obtain ⟨token, rest⟩ := List.cons.inj same
      obtain rfl := has.step_eq nameable hasOther token
      obtain rfl := has.inner_eq nameable.distinct hasOther
      rw [ih (nameable.child (mem_children_iff.mpr ⟨step, has⟩)) reachesOther rest]

end Value

namespace Pointer

theorem text_injective : Function.Injective text := by
  intro first second same
  have read := parse_text first
  rw [same, parse_text] at read
  exact (Except.ok.inj read).symm

def positions (document : Value) : Set (List Step) :=
  {steps | ∃ found, document.Reaches steps found}

/-- The texts of pointers that lead to something in a document. -/
def resolving (document : Value) : Set String :=
  {raw | ∃ pointer found, parse raw = .ok pointer ∧ pointer.get document = .ok found}

section

variable {document : Value} (nameable : document.Nameable)
include nameable

theorem get_ofSteps {steps : List Step} {found : Value} (reaches : document.Reaches steps found) :
    (ofSteps steps).get document = .ok found :=
  (Value.get_eq_ok_iff_reaches nameable).mpr ⟨steps, rfl, reaches⟩

theorem ofSteps_injOn : Set.InjOn (fun steps => (ofSteps steps).text) (positions document) := by
  rintro steps ⟨_, reaches⟩ others ⟨_, reachesOther⟩ same
  exact reaches.steps_eq nameable reachesOther (Pointer.mk.inj (text_injective same))

theorem exists_position {raw : String} {pointer : Pointer} {found : Value}
    (read : parse raw = .ok pointer) (resolves : pointer.get document = .ok found) :
    ∃ steps, document.Reaches steps found ∧ (ofSteps steps).text = raw := by
  obtain ⟨steps, spelled, reaches⟩ := (Value.get_eq_ok_iff_reaches nameable).mp resolves
  refine ⟨steps, reaches, ?_⟩
  rw [ofSteps, spelled]
  exact text_of_parse read

end

/-- In a document each node has a position, and the pointer of a position leads to what stands
there. A text that is a pointer and leads to something is that of one position only. So the
positions and the texts that lead somewhere are in one-to-one correspondence. -/
theorem positions_named {document : Value} (distinct : document.DistinctKeys)
    (bounded : document.ArraysWithin greatestUInt64) :
    (∀ inner, inner ∈ document :: document.descendants ↔ ∃ steps, document.Reaches steps inner)
      ∧ (∀ steps found, document.Reaches steps found →
        parse (ofSteps steps).text = .ok (ofSteps steps)
          ∧ (ofSteps steps).get document = .ok found)
      ∧ (∀ raw pointer found, parse raw = .ok pointer → pointer.get document = .ok found →
        ∃! steps, document.Reaches steps found ∧ (ofSteps steps).text = raw)
      ∧ Set.BijOn (fun steps => (ofSteps steps).text) (positions document)
        (resolving document) := by
  have nameable : document.Nameable := ⟨distinct, bounded⟩
  -- Texts tell positions apart, which makes the position of a text unique and the map injective.
  have apart := ofSteps_injOn nameable
  refine ⟨fun inner => Value.exists_reaches_iff.symm, fun steps found reaches => ?_,
    fun raw pointer found read resolves => ?_, ?_, apart, ?_⟩
  · exact ⟨parse_text _, get_ofSteps nameable reaches⟩
  · obtain ⟨steps, reaches, spelled⟩ := exists_position nameable read resolves
    refine ⟨steps, ⟨reaches, spelled⟩, ?_⟩
    rintro others ⟨reachesOther, spelledOther⟩
    exact apart ⟨found, reachesOther⟩ ⟨found, reaches⟩ (spelledOther.trans spelled.symm)
  · rintro steps ⟨found, reaches⟩
    exact ⟨ofSteps steps, found, parse_text _, get_ofSteps nameable reaches⟩
  · rintro raw ⟨pointer, found, read, resolves⟩
    obtain ⟨steps, reaches, spelled⟩ := exists_position nameable read resolves
    exact ⟨steps, ⟨found, reaches⟩, spelled⟩

/-- On an object a token of digits is a key like any other, superfluous zeros or not. -/
theorem positions_named_digits :
    let document : Value := .object [("01", .array [.null, .object [("~/", .string "")]]),
      ("", .bool true), ("-", .array [])]
    document.DistinctKeys ∧ document.ArraysWithin greatestUInt64
      ∧ parse "/01/1/~0~1" = .ok ⟨["01", "1", "~/"]⟩
      ∧ Pointer.get ⟨["01", "1", "~/"]⟩ document = .ok (.string "")
      ∧ (∃! steps, document.Reaches steps (.string "") ∧ (ofSteps steps).text = "/01/1/~0~1")
      ∧ Set.BijOn (fun steps => (ofSteps steps).text) (positions document)
        (resolving document) := by
  intro document
  have distinct : document.DistinctKeys := by decide
  have bounded : document.ArraysWithin greatestUInt64 := by decide
  have read : parse "/01/1/~0~1" = .ok ⟨["01", "1", "~/"]⟩ := by rfl
  have resolves : Pointer.get ⟨["01", "1", "~/"]⟩ document = .ok (.string "") := by rfl
  obtain ⟨-, -, unique, correspond⟩ := positions_named distinct bounded
  exact ⟨distinct, bounded, read, resolves, unique _ _ _ read resolves, correspond⟩

end Pointer

end JsonTree
