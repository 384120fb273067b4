import JsonTree.Path.Condition

/-! The values that a path selects.

Each selector turns a list of values into the list of what it selects from them, one
after the other. The values of a path are what is left after its last selector.
-/

set_option autoImplicit false

namespace JsonTree

namespace Value

mutual

/-- Everything below a value: each child, followed by everything below it. -/
def descendants : Value → List Value
  | .array items => itemsBelow items
  | .object members => membersBelow members
  | _ => []

def itemsBelow : List Value → List Value
  | [] => []
  | item :: rest => item :: item.descendants ++ itemsBelow rest

def membersBelow : List (String × Value) → List Value
  | [] => []
  | (_, value) :: rest => value :: value.descendants ++ membersBelow rest

end

theorem itemsBelow_eq (items : List Value) :
    itemsBelow items = items.flatMap fun item => item :: item.descendants := by
  induction items with
  | nil => rfl
  | cons item rest ih => simp [itemsBelow, ih]

theorem membersBelow_eq (members : List (String × Value)) :
    membersBelow members
      = (members.map Prod.snd).flatMap fun value => value :: value.descendants := by
  induction members with
  | nil => rfl
  | cons member rest ih => simp [membersBelow, ih]

theorem descendants_eq (value : Value) :
    value.descendants = value.children.flatMap fun child => child :: child.descendants := by
  cases value with
  | array items => simp [descendants, children, itemsBelow_eq]
  | object members => simp only [descendants, children, membersBelow_eq]
  | _ => rfl

def item? (value : Value) (position : Int) : Option Value :=
  let place := if position < 0 then position + value.items.length else position
  if place < 0 then none else value.items[place.toNat]?

theorem items_eq_children_or_nil (value : Value) :
    value.items = value.children ∨ value.items = [] := by
  cases value <;> simp [items, array?, children]

theorem member_mem_children {value inner : Value} {name : String}
    (found : value.member? name = some inner) : inner ∈ value.children := by
  cases value with
  | object members =>
    simp only [member?, object?, Option.bind_some] at found
    simp only [children]
    induction members with
    | nil => simp [Members.get?] at found
    | cons member rest ih =>
      obtain ⟨key, first⟩ := member
      simp only [Members.get?] at found
      split at found
      · simp_all
      · simp [ih found]
  | _ => simp [member?, object?] at found

theorem item_mem_items {value inner : Value} {position : Int}
    (found : value.item? position = some inner) : inner ∈ value.items := by
  simp only [item?] at found
  generalize (if position < 0 then position + (value.items.length : Int) else position) = place
    at found
  split at found
  · contradiction
  · exact List.mem_of_getElem? found

end Value

/-- What one selector selects from a value; `last` says that no selector follows. -/
def Selector.select (last : Bool) (value : Value) : Selector → List Value
  | .property name => (value.member? name).toList
  | .index position => (value.item? position).toList
  | .wildcard => value.children
  | .descent => if last then value.descendants else value :: value.descendants
  | .filter condition => value.items.filter condition.accepts

def selectAll : List Selector → List Value → List Value
  | [], values => values
  | selector :: rest, values =>
    selectAll rest (values.flatMap fun value => selector.select rest.isEmpty value)

def Path.results (path : Path) (document : Value) : List Value :=
  selectAll path.selectors [document]

end JsonTree
