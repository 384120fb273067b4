import JsonTree.Path.Walk

/-! A cursor and a walk find the values of their path, in their order and each as often.

The tasks of a cursor stand for the list of values that are still to come. A step keeps
that list or takes its head, so a run from the one task of a fresh cursor gives what the
selectors select from whole lists. The frames of a walk stand for tasks, and no turn takes
their places out of the path.
-/

set_option autoImplicit false

namespace JsonTree

@[simp] theorem selectAll_nil (selectors : List Selector) : selectAll selectors [] = [] := by
  induction selectors with
  | nil => rfl
  | cons selector rest ih => simpa only [selectAll, List.flatMap_nil] using ih

@[simp] theorem selectAll_append (selectors : List Selector) (left right : List Value) :
    selectAll selectors (left ++ right)
      = selectAll selectors left ++ selectAll selectors right := by
  induction selectors generalizing left right with
  | nil => rfl
  | cons selector rest ih => simp only [selectAll, List.flatMap_append, ih]

theorem selectAll_cons (selectors : List Selector) (value : Value) (values : List Value) :
    selectAll selectors (value :: values)
      = selectAll selectors [value] ++ selectAll selectors values := by
  rw [← selectAll_append, List.singleton_append]

theorem selectAll_single (selector : Selector) (rest : List Selector) (value : Value) :
    selectAll (selector :: rest) [value] = selectAll rest (selector.select rest.isEmpty value) := by
  simp only [selectAll, List.flatMap_cons, List.flatMap_nil, List.append_nil]

/-- The values that a task stands for, by way of whole lists. -/
def Task.results : Task → List Value
  | .visit value selectors => selectAll selectors [value]
  | .visitEach values selectors => selectAll selectors values
  | .descend values selectors =>
    selectAll selectors (values.flatMap fun value => value :: value.descendants)
  | .sift items condition selectors => selectAll selectors (items.filter condition.accepts)

namespace Cursor

def pending (tasks : List Task) : List Value := tasks.flatMap Task.results

@[simp] theorem pending_nil : pending [] = [] := rfl

@[simp] theorem pending_cons (task : Task) (tasks : List Task) :
    pending (task :: tasks) = task.results ++ pending tasks := rfl

@[simp] theorem pending_append (first second : List Task) :
    pending (first ++ second) = pending first ++ pending second := List.flatMap_append

theorem pending_expand (value : Value) (rest : List Selector) (selector : Selector) :
    pending (expand value rest selector) = selectAll (selector :: rest) [value] := by
  rw [selectAll_single]
  cases selector with
  | property name =>
    cases found : value.member? name <;>
      simp [expand, ofOption, found, Selector.select, Task.results]
  | index position =>
    cases found : value.item? position <;>
      simp [expand, ofOption, found, Selector.select, Task.results]
  | wildcard => simp [expand, Selector.select, Task.results]
  | descent =>
    have whole := Value.descendants_eq value
    cases rest with
    | nil => simp [expand, Selector.select, Task.results, ← whole]
    | cons next others =>
      simp only [expand, Selector.select, List.isEmpty_cons, Bool.false_eq_true, if_false,
        pending_cons, pending_nil, List.append_nil, Task.results, ← whole]
      exact (selectAll_cons _ _ _).symm
  | filter condition => simp [expand, Selector.select, Task.results]

theorem pending_becomes {task : Task} {after : List Task} (becomes : task.Becomes after) :
    pending after = task.results := by
  cases becomes with
  | expands value selector rest => exact pending_expand value rest selector
  | visitsNone | descendsNowhere | siftsNone => simp [Task.results]
  | visitsFirst value values rest =>
    simp only [pending_cons, pending_nil, Task.results, selectAll_cons rest value values,
      List.append_nil]
  | descendsFirst value values rest =>
    simp only [pending_cons, pending_nil, Task.results, List.flatMap_cons, List.cons_append,
      ← Value.descendants_eq, selectAll_append, selectAll_cons rest value (_ ++ _),
      List.append_nil]
  | @accepts item _ items rest accepted =>
    simp only [pending_cons, pending_nil, Task.results, List.filter_cons_of_pos accepted,
      selectAll_cons rest item (List.filter _ _), List.append_nil]
  | refuses items rest refused => simp [Task.results, refused]

theorem pending_moved {tasks more : List Task} (moved : step tasks = .moved more) :
    pending more = pending tasks := by
  obtain ⟨task, after, rest, rfl, rfl, becomes⟩ := becomes_of_moved moved
  rw [pending_append, pending_cons, pending_becomes becomes]

/-- A step that finds a value takes it off the front of what is still to come. -/
theorem pending_found {tasks more : List Task} {value : Value}
    (found : step tasks = .found value more) : pending tasks = value :: pending more := by
  rw [eq_visit_of_found found]
  rfl

theorem Run.pending_eq {tasks final : List Task} {values : List Value}
    (run : Run tasks values final) : pending tasks = values ++ pending final := by
  induction run with
  | here => rfl
  | moved progress _ ih => rw [← pending_moved progress, ih]
  | found progress _ ih => rw [pending_found progress, ih, List.cons_append]

theorem pending_eq_nextOf (tasks : List Task) :
    pending tasks = match nextOf tasks with
      | none => []
      | some (value, more) => value :: pending more := by
  fun_induction nextOf tasks with
  | case1 tasks finished => rw [eq_nil_of_finished finished]; rfl
  | case2 tasks value more found => exact pending_found found
  | case3 tasks more moved ih => rw [← pending_moved moved, ih]

theorem drain_eq_pending (tasks : List Task) : drain tasks = pending tasks := by
  fun_induction drain tasks with
  | case1 tasks finished => rw [eq_nil_of_finished finished]; rfl
  | case2 tasks value more found ih => rw [pending_found found, ih]
  | case3 tasks more moved ih => rw [← pending_moved moved, ih]

end Cursor

theorem Path.pending_cursor (path : Path) (document : Value) :
    Cursor.pending (path.cursor document).tasks = path.results document := List.append_nil _

namespace Walk

variable {selectors : List Selector} {frames more final : List Frame} {values : List Value}

def left : Turn → List Frame
  | .finished => []
  | .found _ frames | .moved frames => frames

/-- The place of a frame is one of the path, or the place behind it; that of a sift has a filter. -/
inductive Within (selectors : List Selector) : Frame → Prop where
  | visit {place : Nat} (value : Value) : place ≤ selectors.length →
      Within selectors (.visit value place)
  | children {place : Nat} (values : List Value) (deep : Bool) : place ≤ selectors.length →
      Within selectors (.children values place deep)
  | sift {place : Nat} {condition : Filter} (items : List Value) :
      selectors[place]? = some (.filter condition) → Within selectors (.sift items place)

def AllWithin (selectors : List Selector) (frames : List Frame) : Prop :=
  ∀ frame ∈ frames, Within selectors frame

theorem allWithin_nil : AllWithin selectors [] := List.forall_mem_nil _

theorem allWithin_cons {frame : Frame} :
    AllWithin selectors (frame :: frames) ↔ Within selectors frame ∧ AllWithin selectors frames :=
  List.forall_mem_cons

theorem lt_length_of_getElem? {place : Nat} {selector : Selector}
    (here : selectors[place]? = some selector) : place < selectors.length :=
  (List.getElem?_eq_some_iff.mp here).1

theorem allWithin_expand {place : Nat} {selector : Selector}
    (here : selectors[place]? = some selector) (value : Value) :
    AllWithin selectors (expand selectors value place selector) := by
  have next := lt_length_of_getElem? here
  have option (found : Option Value) : AllWithin selectors (visitOption found (place + 1)) := by
    cases found with
    | none => exact allWithin_nil
    | some inner => exact allWithin_cons.mpr ⟨.visit inner next, allWithin_nil⟩
  cases selector with
  | property name => exact option _
  | index position => exact option _
  | wildcard => exact allWithin_cons.mpr ⟨.children _ _ next, allWithin_nil⟩
  | descent =>
    have below := allWithin_cons.mpr ⟨Within.children value.children true next, allWithin_nil⟩
    by_cases follows : place + 1 < selectors.length
    · rw [expand, if_pos follows]
      exact allWithin_cons.mpr ⟨.visit value next, below⟩
    · rw [expand, if_neg follows]
      exact below
  | filter condition =>
    cases value with
    | array items => exact allWithin_cons.mpr ⟨.sift items here, allWithin_nil⟩
    | _ => exact allWithin_nil

theorem allWithin_becomes {frame : Frame} {after : List Frame}
    (becomes : Becomes selectors frame after) (within : Within selectors frame) :
    AllWithin selectors after := by
  cases becomes with
  | expands value here => exact allWithin_expand here value
  | noChild | refuses | noFilter => exact allWithin_nil
  | childAndBelow child others =>
    cases within with
    | children _ _ inside =>
      have later := allWithin_cons.mpr ⟨Within.children others true inside, allWithin_nil⟩
      exact allWithin_cons.mpr
        ⟨.visit child inside, allWithin_cons.mpr ⟨.children _ _ inside, later⟩⟩
  | child child others =>
    cases within with
    | children _ _ inside =>
      have later := allWithin_cons.mpr ⟨Within.children others false inside, allWithin_nil⟩
      exact allWithin_cons.mpr ⟨.visit child inside, later⟩
  | @accepts items others item place condition here =>
    have later := allWithin_cons.mpr ⟨Within.sift others here, allWithin_nil⟩
    exact allWithin_cons.mpr ⟨.visit item (lt_length_of_getElem? here), later⟩

theorem allWithin_turn {turned : Turn} (taken : turn selectors frames = .ok turned)
    (within : AllWithin selectors frames) : AllWithin selectors (left turned) := by
  cases turns_of_turn taken with
  | finished => exact allWithin_nil
  | found value frames => exact (allWithin_cons.mp within).2
  | moved frames becomes =>
    obtain ⟨first, others⟩ := allWithin_cons.mp within
    exact List.forall_mem_append.mpr ⟨allWithin_becomes becomes first, others⟩

/-- Frames of the path look up selectors of the path. -/
theorem exists_turn (within : AllWithin selectors frames) :
    ∃ turned, turn selectors frames = .ok turned := by
  cases frames with
  | nil => exact ⟨_, rfl⟩
  | cons frame frames =>
    cases (allWithin_cons.mp within).1 with
    | @visit place value inside =>
      rw [turn]
      split
      · exact ⟨_, rfl⟩
      · next follows =>
        rw [List.getElem?_eq_getElem (Nat.lt_of_le_of_ne inside follows)]
        exact ⟨_, rfl⟩
    | children values deep =>
      cases values with
      | nil => exact ⟨_, rfl⟩
      | cons child others => cases deep <;> exact ⟨_, rfl⟩
    | sift items here =>
      rw [turn, here]
      dsimp only
      split <;> exact ⟨_, rfl⟩

inductive Run (selectors : List Selector) : List Frame → List Value → List Frame → Prop where
  | here (frames : List Frame) : Run selectors frames [] frames
  | moved {frames more final : List Frame} {values : List Value} :
      turn selectors frames = .ok (.moved more) → Run selectors more values final →
      Run selectors frames values final
  | found {frames more final : List Frame} {value : Value} {values : List Value} :
      turn selectors frames = .ok (.found value more) → Run selectors more values final →
      Run selectors frames (value :: values) final

theorem Run.allWithin (run : Run selectors frames values final)
    (within : AllWithin selectors frames) : AllWithin selectors final := by
  induction run with
  | here => exact within
  | moved taken _ ih => exact ih (allWithin_turn taken within)
  | found taken _ ih => exact ih (allWithin_turn taken within)

def pending (selectors : List Selector) (frames : List Frame) : List Value :=
  Cursor.pending (tasks selectors frames)

theorem pending_moved (taken : turn selectors frames = .ok (.moved more)) :
    pending selectors frames = pending selectors more := by
  obtain ⟨between, moved, run⟩ := moves_of_turn taken
  exact (Cursor.pending_moved moved).symm.trans run.pending_eq

theorem step_of_found {value : Value} (taken : turn selectors frames = .ok (.found value more)) :
    Cursor.step (tasks selectors frames) = .found value (tasks selectors more) := by
  cases turns_of_turn taken with
  | found =>
    rw [tasks, List.map_cons, task, List.drop_length]
    rfl

theorem pending_found {value : Value} (taken : turn selectors frames = .ok (.found value more)) :
    pending selectors frames = value :: pending selectors more :=
  Cursor.pending_found (step_of_found taken)

/-- Frames of the path come to their end after finitely many turns, with all that they stand
for and without a fault. -/
theorem run_pending (within : AllWithin selectors frames) :
    Run selectors frames (pending selectors frames) [] := by
  induction bound : Cursor.cost (tasks selectors frames) using Nat.strongRecOn
    generalizing frames with
  | _ bound ih =>
    subst bound
    -- Whatever the turn does, the tasks that are left cost less.
    obtain ⟨turned, taken⟩ := exists_turn within
    have inside := allWithin_turn taken within
    cases turned with
    | finished =>
      cases turns_of_turn taken
      exact .here []
    | moved more =>
      rw [pending_moved taken]
      exact .moved taken (ih _ (moves_of_turn taken).cost_lt inside rfl)
    | found value more =>
      rw [pending_found taken]
      exact .found taken (ih _ (Cursor.cost_found_lt (step_of_found taken)) inside rfl)

/-- A call gives the front of what is still to come, and leaves the rest of it. -/
theorem nextOf_eq (within : AllWithin selectors frames) :
    ∃ more, nextOf selectors frames = .ok ((pending selectors frames).head?, more)
      ∧ pending selectors more = (pending selectors frames).tail ∧ AllWithin selectors more := by
  fun_induction nextOf selectors frames with
  | case1 frames fault taken =>
    obtain ⟨turned, other⟩ := exists_turn within
    rw [taken] at other
    contradiction
  | case2 frames taken =>
    cases turns_of_turn taken
    exact ⟨[], rfl, rfl, allWithin_nil⟩
  | case3 frames value more taken =>
    rw [pending_found taken]
    exact ⟨more, rfl, rfl, allWithin_turn taken within⟩
  | case4 frames more taken ih =>
    rw [pending_moved taken]
    exact ih (allWithin_turn taken within)

theorem answers_eq (count : Nat) (within : AllWithin selectors frames) :
    answers count ⟨selectors, frames⟩
      = .ok ((List.range count).map fun place => (pending selectors frames)[place]?) := by
  induction count generalizing frames with
  | zero => rfl
  | succ count ih =>
    obtain ⟨more, called, rest, inside⟩ := nextOf_eq within
    have later := ih inside
    rw [rest] at later
    simp only [answers, next, called, Except.map, bind, Except.bind, later, pure, Except.pure,
      List.range_succ_eq_map, List.map_cons, List.map_map, List.head?_eq_getElem?]
    congr 2
    exact List.map_congr_left fun place _ => List.getElem?_tail ..

end Walk

theorem Path.allWithin_walk (path : Path) (document : Value) :
    Walk.AllWithin path.selectors (path.walk document).frames :=
  Walk.allWithin_cons.mpr ⟨.visit document (Nat.zero_le _), Walk.allWithin_nil⟩

theorem Path.pending_walk (path : Path) (document : Value) :
    Walk.pending path.selectors (path.walk document).frames = path.results document :=
  path.pending_cursor document

/-- A walk comes to its end with the values of its path, call by call, and gives none from then
on. Whatever frames it has reached, their turn looks up no selector behind the last one. The
cursor of the path gives the same values. -/
theorem Path.walk_traverses (path : Path) (document : Value) :
    Walk.Run path.selectors (path.walk document).frames (path.results document) []
      ∧ (∀ count, (path.walk document).answers count
          = .ok ((List.range count).map fun place => (path.results document)[place]?))
      ∧ (∀ values frames, Walk.Run path.selectors (path.walk document).frames values frames →
          ∃ turned, Walk.turn path.selectors frames = .ok turned)
      ∧ (path.cursor document).toList = path.results document := by
  have within := path.allWithin_walk document
  have whole := path.pending_walk document
  refine ⟨?_, ?_, ?_, ?_⟩
  · rw [← whole]
    exact Walk.run_pending within
  · intro count
    rw [← whole]
    exact Walk.answers_eq count within
  · intro values frames run
    exact Walk.exists_turn (run.allWithin within)
  · rw [← path.pending_cursor document]
    exact Cursor.drain_eq_pending _

/-- Two descents in a row: the first turn of the walk, and the selector it goes on with. -/
theorem Path.walk_traverses_descents :
    let path : Path := ⟨"$....", [.descent, .descent]⟩
    let document : Value := .array [.array [.null], .bool true]
    let frames : List Frame := [.visit document 1, .children [.array [.null], .bool true] 1 true]
    Walk.Run path.selectors (path.walk document).frames [] frames
      ∧ ∃ turned, Walk.turn path.selectors frames = .ok turned := by
  intro path document frames
  have run : Walk.Run path.selectors (path.walk document).frames [] frames :=
    .moved rfl (.here frames)
  exact ⟨run, (path.walk_traverses document).2.2.1 [] frames run⟩

end JsonTree
