import JsonTree.Path.Cursor

/-! Walking through a document by the places of a path.

A walk has one list of selectors, and what is still to do are frames with places in that
list. A frame looks its selector up when its turn comes, and a place behind the last selector
is a fault. The tasks of a cursor are the frames with the selectors from their places on, and
every turn of a walk is a run of theirs.
-/

set_option autoImplicit false

namespace JsonTree

inductive Frame where
  /-- Take the selectors from a place on. -/
  | visit (value : Value) (place : Nat)
  /-- Visit each child at a place. In a deep frame what is below a child follows it. -/
  | children (values : List Value) (place : Nat) (deep : Bool)
  /-- Test the items by the filter at a place. -/
  | sift (items : List Value) (place : Nat)

/-- The selectors of a path, and the frames that are left, the next one first. -/
structure Walk where
  selectors : List Selector
  frames : List Frame

/-- A selector was looked up behind the last one. -/
structure OutOfRange where
  place : Nat
  length : Nat
  deriving DecidableEq, Repr

inductive Turn where
  | finished
  | found (value : Value) (frames : List Frame)
  | moved (frames : List Frame)

namespace Walk

variable (selectors : List Selector)

def visitOption (value : Option Value) (place : Nat) : List Frame :=
  match value with
  | some value => [.visit value place]
  | none => []

/-- The frames that take the place of a visit. A filter stays at its own place, and a value
that is no array has nothing for it. -/
def expand (value : Value) (place : Nat) : Selector → List Frame
  | .property name => visitOption (value.member? name) (place + 1)
  | .index position => visitOption (value.item? position) (place + 1)
  | .wildcard => [.children value.children (place + 1) false]
  | .descent =>
    if place + 1 < selectors.length then
      [.visit value (place + 1), .children value.children (place + 1) true]
    else [.children value.children (place + 1) true]
  | .filter _ =>
    match value with
    | .array items => [.sift items place]
    | _ => []

def findAccepted (condition : Filter) : List Value → Option (Value × List Value)
  | [] => none
  | item :: items =>
    if condition.accepts item then some (item, items) else findAccepted condition items

def turn : List Frame → Except OutOfRange Turn
  | [] => .ok .finished
  | .visit value place :: frames =>
    if place = selectors.length then .ok (.found value frames)
    else
      match selectors[place]? with
      | some selector => .ok (.moved (expand selectors value place selector ++ frames))
      | none => .error ⟨place, selectors.length⟩
  | .children [] _ _ :: frames => .ok (.moved frames)
  | .children (child :: others) place true :: frames =>
    .ok (.moved (.visit child place :: .children child.children place true
      :: .children others place true :: frames))
  | .children (child :: others) place false :: frames =>
    .ok (.moved (.visit child place :: .children others place false :: frames))
  | .sift items place :: frames =>
    match selectors[place]? with
    | some (.filter condition) =>
      match findAccepted condition items with
      | some (item, others) =>
        .ok (.moved (.visit item (place + 1) :: .sift others place :: frames))
      | none => .ok (.moved frames)
    | some _ => .ok (.moved frames)
    | none => .error ⟨place, selectors.length⟩

inductive Becomes : Frame → List Frame → Prop where
  | expands {place : Nat} {selector : Selector} (value : Value) :
      selectors[place]? = some selector →
      Becomes (.visit value place) (expand selectors value place selector)
  | noChild (place : Nat) (deep : Bool) : Becomes (.children [] place deep) []
  | childAndBelow (child : Value) (others : List Value) (place : Nat) :
      Becomes (.children (child :: others) place true)
        [.visit child place, .children child.children place true, .children others place true]
  | child (child : Value) (others : List Value) (place : Nat) :
      Becomes (.children (child :: others) place false)
        [.visit child place, .children others place false]
  | accepts {items others : List Value} {item : Value} {place : Nat} {condition : Filter} :
      selectors[place]? = some (.filter condition) →
      findAccepted condition items = some (item, others) →
      Becomes (.sift items place) [.visit item (place + 1), .sift others place]
  | refuses {items : List Value} {place : Nat} {condition : Filter} :
      selectors[place]? = some (.filter condition) → findAccepted condition items = none →
      Becomes (.sift items place) []
  | noFilter {place : Nat} {selector : Selector} (items : List Value) :
      selectors[place]? = some selector → (∀ condition, selector ≠ .filter condition) →
      Becomes (.sift items place) []

inductive Turns : List Frame → Turn → Prop where
  | finished : Turns [] .finished
  | found (value : Value) (frames : List Frame) :
      Turns (.visit value selectors.length :: frames) (.found value frames)
  | moved {frame : Frame} {after : List Frame} (frames : List Frame) :
      Becomes selectors frame after → Turns (frame :: frames) (.moved (after ++ frames))

-- A frame stands for a task whatever its place is. A sift without a filter at its place ends
-- with its turn, as a visit of nothing does.

def task : Frame → Task
  | .visit value place => .visit value (selectors.drop place)
  | .children values place true => .descend values (selectors.drop place)
  | .children values place false => .visitEach values (selectors.drop place)
  | .sift items place =>
    match selectors[place]? with
    | some (.filter condition) => .sift items condition (selectors.drop (place + 1))
    | _ => .visitEach [] []

def tasks (frames : List Frame) : List Task := frames.map (task selectors)

variable {selectors}

theorem turns_of_turn {frames : List Frame} {turned : Turn}
    (taken : turn selectors frames = .ok turned) : Turns selectors frames turned := by
  unfold turn at taken
  split at taken
  · cases taken
    exact .finished
  · next value place frames =>
    split at taken
    · next last =>
      cases taken
      exact last ▸ .found value frames
    · split at taken
      · next here =>
        cases taken
        exact .moved frames (.expands value here)
      · contradiction
  · cases taken
    exact .moved _ (.noChild _ _)
  · cases taken
    exact .moved _ (.childAndBelow _ _ _)
  · cases taken
    exact .moved _ (.child _ _ _)
  · next items place frames =>
    split at taken
    · next condition here =>
      split at taken
      · next accepted =>
        cases taken
        exact .moved frames (.accepts here accepted)
      · next refused =>
        cases taken
        exact .moved frames (.refuses here refused)
    · next other here =>
      cases taken
      exact .moved frames (.noFilter items here other)
    · contradiction

theorem tasks_append (front frames : List Frame) :
    tasks selectors (front ++ frames) = tasks selectors front ++ tasks selectors frames :=
  List.map_append

theorem tasks_visitOption (value : Option Value) (place : Nat) :
    tasks selectors (visitOption value place) = Cursor.ofOption value (selectors.drop place) := by
  cases value <;> rfl

theorem task_sift {place : Nat} {condition : Filter}
    (here : selectors[place]? = some (.filter condition)) (items : List Value) :
    task selectors (.sift items place) = .sift items condition (selectors.drop (place + 1)) := by
  rw [task, here]

/-- Tasks that move at least once, and find nothing on the way. -/
def Moves (before after : List Task) : Prop :=
  ∃ between, Cursor.step before = .moved between ∧ Cursor.Run between [] after

theorem Moves.once {before after : List Task} (moved : Cursor.step before = .moved after) :
    Moves before after :=
  ⟨after, moved, .here after⟩

theorem Moves.cost_lt {before after : List Task} (moves : Moves before after) :
    Cursor.cost after < Cursor.cost before := by
  obtain ⟨between, moved, run⟩ := moves
  exact Nat.lt_of_le_of_lt run.cost_le (Cursor.cost_moved_lt moved)

theorem moves_sift (condition : Filter) (rest : List Selector) (tasks : List Task)
    (items : List Value) :
    Moves (.sift items condition rest :: tasks)
      (match findAccepted condition items with
      | some (item, others) => .visit item rest :: .sift others condition rest :: tasks
      | none => tasks) := by
  induction items with
  | nil => exact .once rfl
  | cons item items ih =>
    rw [findAccepted]
    by_cases accepted : condition.accepts item = true
    · rw [if_pos accepted]
      exact .once (if_pos accepted)
    · rw [if_neg accepted]
      obtain ⟨between, moved, run⟩ := ih
      exact ⟨_, if_neg accepted, .moved moved run⟩

/-- The frames of a selector stand for its tasks. Only a filter of no array has a task more. -/
theorem moves_expand {place : Nat} {selector : Selector}
    (here : selectors[place]? = some selector) (value : Value) (rest : List Task) :
    Moves (task selectors (.visit value place) :: rest)
      (tasks selectors (expand selectors value place selector) ++ rest) := by
  obtain ⟨inside, same⟩ := List.getElem?_eq_some_iff.mp here
  have first : task selectors (.visit value place)
      = .visit value (selector :: selectors.drop (place + 1)) := by
    rw [task, List.drop_eq_getElem_cons inside, same]
  have moved : Cursor.step (task selectors (.visit value place) :: rest)
      = .moved (Cursor.expand value (selectors.drop (place + 1)) selector ++ rest) := by
    rw [first]
    rfl
  cases selector with
  | property | index =>
    rw [expand, tasks_visitOption]
    exact .once moved
  | wildcard => exact .once moved
  | descent =>
    by_cases more : place + 1 < selectors.length
    · have goesOn : (selectors.drop (place + 1)).isEmpty = false := by simpa using more
      rw [expand, if_pos more]
      exact .once (moved.trans (by rw [Cursor.expand, goesOn]; rfl))
    · have last : (selectors.drop (place + 1)).isEmpty = true := by simpa using more
      rw [expand, if_neg more]
      exact .once (moved.trans (by rw [Cursor.expand, last]; rfl))
  | filter condition =>
    cases value with
    | array items =>
      refine .once (moved.trans ?_)
      rw [expand, tasks, List.map_cons, task_sift here]
      rfl
    | _ => exact ⟨_, moved, .moved rfl (.here _)⟩

theorem moves_becomes {frame : Frame} {after : List Frame} (becomes : Becomes selectors frame after)
    (rest : List Task) : Moves (task selectors frame :: rest) (tasks selectors after ++ rest) := by
  cases becomes with
  | expands value here => exact moves_expand here value rest
  | noChild place deep => cases deep <;> exact .once rfl
  | childAndBelow | child => exact .once rfl
  | @accepts items others item place condition here accepted =>
    -- The items that are passed over are one turn of the walk and a move each of the tasks.
    have moves := moves_sift condition (selectors.drop (place + 1)) rest items
    rw [accepted] at moves
    rw [task_sift here, tasks, List.map_cons, List.map_cons, task_sift here]
    exact moves
  | @refuses items place condition here refused =>
    have moves := moves_sift condition (selectors.drop (place + 1)) rest items
    rw [refused] at moves
    rw [task_sift here]
    exact moves
  | @noFilter place selector items here other =>
    have nothing : task selectors (.sift items place) = .visitEach [] [] := by
      rw [task, here]
      cases selector with
      | filter condition => exact absurd rfl (other condition)
      | _ => rfl
    rw [nothing]
    exact .once rfl

/-- What a turn does to the frames, some moves do to their tasks. -/
theorem moves_of_turn {frames more : List Frame}
    (taken : turn selectors frames = .ok (.moved more)) :
    Moves (tasks selectors frames) (tasks selectors more) := by
  cases turns_of_turn taken with
  | moved frames becomes =>
    rw [tasks_append]
    exact moves_becomes becomes (tasks selectors frames)

/-- Turns up to the next value: what is found, if anything is, and the frames that are left. -/
def nextOf (selectors : List Selector) (frames : List Frame) :
    Except OutOfRange (Option Value × List Frame) :=
  match _turned : turn selectors frames with
  | .error fault => .error fault
  | .ok .finished => .ok (none, frames)
  | .ok (.found value more) => .ok (some value, more)
  | .ok (.moved more) => nextOf selectors more
termination_by Cursor.cost (tasks selectors frames)
decreasing_by exact (moves_of_turn _turned).cost_lt

def next (walk : Walk) : Except OutOfRange (Option Value × Walk) :=
  (nextOf walk.selectors walk.frames).map fun (value, frames) => (value, ⟨walk.selectors, frames⟩)

def answers : Nat → Walk → Except OutOfRange (List (Option Value))
  | 0, _ => .ok []
  | count + 1, walk => do
    let (value, after) ← walk.next
    let later ← answers count after
    pure (value :: later)

end Walk

def Path.walk (path : Path) (document : Value) : Walk := ⟨path.selectors, [.visit document 0]⟩

end JsonTree
