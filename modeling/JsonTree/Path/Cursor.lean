import JsonTree.Path.Selection

/-! Selecting values one at a time.

A cursor holds what is still to do, the next thing first, so the first value of a path
is there without the work for the others. A cursor is a value: two that are equal go
on in the same way, and moving one moves no other.
-/

set_option autoImplicit false

namespace JsonTree

inductive Task where
  | visit (value : Value) (selectors : List Selector)
  | visitEach (values : List Value) (selectors : List Selector)
  /-- Visit each value and then everything below it. -/
  | descend (values : List Value) (selectors : List Selector)
  | sift (items : List Value) (filter : Filter) (selectors : List Selector)

structure Cursor where
  tasks : List Task

namespace Cursor

def ofOption (value : Option Value) (selectors : List Selector) : List Task :=
  match value with
  | some value => [.visit value selectors]
  | none => []

/-- The tasks that the first of some selectors asks for at a value. -/
def expand (value : Value) (rest : List Selector) : Selector → List Task
  | .property name => ofOption (value.member? name) rest
  | .index position => ofOption (value.item? position) rest
  | .wildcard => [.visitEach value.children rest]
  | .descent =>
    if rest.isEmpty then [.descend value.children rest]
    else [.visit value rest, .descend value.children rest]
  | .filter condition => [.sift value.items condition rest]

/-- What comes of the next task: nothing is left, a value is found, or other tasks
take its place. -/
inductive Progress where
  | finished
  | found (value : Value) (tasks : List Task)
  | moved (tasks : List Task)

def step : List Task → Progress
  | [] => .finished
  | .visit value [] :: tasks => .found value tasks
  | .visit value (selector :: rest) :: tasks => .moved (expand value rest selector ++ tasks)
  | .visitEach [] _ :: tasks => .moved tasks
  | .visitEach (value :: values) rest :: tasks =>
    .moved (.visit value rest :: .visitEach values rest :: tasks)
  | .descend [] _ :: tasks => .moved tasks
  | .descend (value :: values) rest :: tasks =>
    .moved (.visit value rest :: .descend value.children rest :: .descend values rest :: tasks)
  | .sift [] _ _ :: tasks => .moved tasks
  | .sift (item :: items) condition rest :: tasks =>
    if condition.accepts item then
      .moved (.visit item rest :: .sift items condition rest :: tasks)
    else .moved (.sift items condition rest :: tasks)

end Cursor

inductive Task.Becomes : Task → List Task → Prop where
  | expands (value : Value) (selector : Selector) (rest : List Selector) :
      Becomes (.visit value (selector :: rest)) (Cursor.expand value rest selector)
  | visitsNone (rest : List Selector) : Becomes (.visitEach [] rest) []
  | visitsFirst (value : Value) (values : List Value) (rest : List Selector) :
      Becomes (.visitEach (value :: values) rest) [.visit value rest, .visitEach values rest]
  | descendsNowhere (rest : List Selector) : Becomes (.descend [] rest) []
  | descendsFirst (value : Value) (values : List Value) (rest : List Selector) :
      Becomes (.descend (value :: values) rest)
        [.visit value rest, .descend value.children rest, .descend values rest]
  | siftsNone (condition : Filter) (rest : List Selector) : Becomes (.sift [] condition rest) []
  | accepts {item : Value} {condition : Filter} (items : List Value) (rest : List Selector) :
      condition.accepts item = true →
      Becomes (.sift (item :: items) condition rest)
        [.visit item rest, .sift items condition rest]
  | refuses {item : Value} {condition : Filter} (items : List Value) (rest : List Selector) :
      condition.accepts item = false →
      Becomes (.sift (item :: items) condition rest) [.sift items condition rest]

namespace Cursor

theorem becomes_of_moved {tasks more : List Task} (moved : step tasks = .moved more) :
    ∃ task after rest, tasks = task :: rest ∧ more = after ++ rest ∧ task.Becomes after := by
  unfold step at moved
  split at moved
  · contradiction
  · contradiction
  · next value selector rest tasks =>
    obtain rfl := Progress.moved.inj moved
    exact ⟨_, _, tasks, rfl, rfl, .expands value selector rest⟩
  · next rest tasks =>
    obtain rfl := Progress.moved.inj moved
    exact ⟨_, _, tasks, rfl, rfl, .visitsNone rest⟩
  · next value values rest tasks =>
    obtain rfl := Progress.moved.inj moved
    exact ⟨_, _, tasks, rfl, rfl, .visitsFirst value values rest⟩
  · next rest tasks =>
    obtain rfl := Progress.moved.inj moved
    exact ⟨_, _, tasks, rfl, rfl, .descendsNowhere rest⟩
  · next value values rest tasks =>
    obtain rfl := Progress.moved.inj moved
    exact ⟨_, _, tasks, rfl, rfl, .descendsFirst value values rest⟩
  · next condition rest tasks =>
    obtain rfl := Progress.moved.inj moved
    exact ⟨_, _, tasks, rfl, rfl, .siftsNone condition rest⟩
  · next item items condition rest tasks =>
    split at moved
    · next accepted =>
      obtain rfl := Progress.moved.inj moved
      exact ⟨_, _, tasks, rfl, rfl, .accepts items rest accepted⟩
    · next refused =>
      obtain rfl := Progress.moved.inj moved
      exact ⟨_, _, tasks, rfl, rfl, .refuses items rest (Bool.eq_false_iff.mpr refused)⟩

theorem eq_visit_of_found {tasks more : List Task} {value : Value}
    (found : step tasks = .found value more) : tasks = .visit value [] :: more := by
  unfold step at found
  split at found <;> try contradiction
  · obtain ⟨rfl, rfl⟩ := Progress.found.inj found
    rfl
  · split at found <;> contradiction

theorem eq_nil_of_finished {tasks : List Task} (finished : step tasks = .finished) :
    tasks = [] := by
  unfold step at finished
  split at finished <;> try contradiction
  · rfl
  · split at finished <;> contradiction

-- Every step takes one task away or puts cheaper ones in its place. A cost that adds up
-- over the tasks therefore bounds the run, however the tasks are interleaved.

def total (weight : Value → Nat) : List Value → Nat
  | [] => 0
  | value :: values => weight value + total weight values

@[simp] theorem total_nil (weight : Value → Nat) : total weight [] = 0 := rfl

@[simp] theorem total_cons (weight : Value → Nat) (value : Value) (values : List Value) :
    total weight (value :: values) = weight value + total weight values := rfl

@[simp] theorem total_append (weight : Value → Nat) (left right : List Value) :
    total weight (left ++ right) = total weight left + total weight right := by
  induction left with
  | nil => simp
  | cons value values ih => simp [ih, Nat.add_assoc]

theorem le_total_of_mem {values : List Value} {value : Value} (member : value ∈ values)
    (weight : Value → Nat) : weight value ≤ total weight values := by
  induction values with
  | nil => contradiction
  | cons head rest ih =>
    rw [total_cons]
    rcases List.mem_cons.mp member with rfl | later
    · omega
    · have := ih later
      omega

theorem total_children_le (value : Value) (weight : Value → Nat) :
    total weight value.children ≤ total weight value.descendants := by
  rw [Value.descendants_eq]
  induction value.children with
  | nil => simp
  | cons child rest ih =>
    simp only [List.flatMap_cons, List.cons_append, total_cons, total_append]
    omega

theorem total_items_le (value : Value) (weight : Value → Nat) :
    total weight value.items ≤ total weight value.descendants := by
  rcases value.items_eq_children_or_nil with same | none
  · rw [same]
    exact total_children_le value weight
  · simp [none]

def visitCost : List Selector → Value → Nat
  | [], _ => 1
  | _ :: rest, value =>
    visitCost rest value + total (fun below => visitCost rest below + 2) value.descendants + 3

def taskCost : Task → Nat
  | .visit value selectors => visitCost selectors value
  | .visitEach values selectors => total (fun value => visitCost selectors value + 2) values + 1
  | .descend values selectors =>
    total (fun value => visitCost selectors value + 2)
      (values.flatMap fun value => value :: value.descendants) + 1
  | .sift items _ selectors => total (fun item => visitCost selectors item + 2) items + 1

def cost : List Task → Nat
  | [] => 0
  | task :: tasks => taskCost task + cost tasks

theorem cost_append (first second : List Task) :
    cost (first ++ second) = cost first + cost second := by
  induction first with
  | nil => simp [cost]
  | cons task tasks ih => simp [cost, ih, Nat.add_assoc]

theorem cost_expand_lt (value : Value) (rest : List Selector) (selector : Selector) :
    cost (expand value rest selector) < visitCost (selector :: rest) value := by
  have below := total_children_le value fun below => visitCost rest below + 2
  have inside := total_items_le value fun below => visitCost rest below + 2
  -- What a selector leads to lies in the children, except for a descent, which leads to the value
  -- as well and whose visits are those of the descendants.
  cases selector with
  | property name =>
    cases found : value.member? name with
    | none => simp [expand, found, ofOption, cost, visitCost]
    | some inner =>
      have bound := le_total_of_mem (Value.member_mem_children found)
        fun below => visitCost rest below + 2
      simp only [expand, found, ofOption, cost, taskCost, visitCost]
      omega
  | index position =>
    cases found : value.item? position with
    | none => simp [expand, found, ofOption, cost, visitCost]
    | some inner =>
      have bound := le_total_of_mem (Value.item_mem_items found)
        fun below => visitCost rest below + 2
      simp only [expand, found, ofOption, cost, taskCost, visitCost]
      omega
  | wildcard =>
    simp only [expand, cost, taskCost, visitCost]
    omega
  | descent =>
    have whole := Value.descendants_eq value
    simp only [expand]
    split
    · simp only [cost, taskCost, visitCost, ← whole]
      omega
    · simp only [cost, taskCost, visitCost, ← whole]
      omega
  | filter condition =>
    simp only [expand, cost, taskCost, visitCost]
    omega

/-- What takes the place of a task costs less than the task. -/
theorem cost_becomes_lt {task : Task} {after : List Task} (becomes : task.Becomes after) :
    cost after < taskCost task := by
  cases becomes with
  | expands value selector rest => exact cost_expand_lt value rest selector
  | visitsNone | descendsNowhere | siftsNone => simp [cost, taskCost]
  | visitsFirst | accepts | refuses =>
    simp only [cost, taskCost, total_cons]
    omega
  | descendsFirst =>
    simp only [cost, taskCost, ← Value.descendants_eq, List.flatMap_cons, List.cons_append,
      total_cons, total_append]
    omega

theorem cost_moved_lt {tasks more : List Task} (moved : step tasks = .moved more) :
    cost more < cost tasks := by
  obtain ⟨task, after, rest, rfl, rfl, becomes⟩ := becomes_of_moved moved
  rw [cost_append, cost]
  exact Nat.add_lt_add_right (cost_becomes_lt becomes) _

theorem cost_found_lt {tasks more : List Task} {value : Value}
    (found : step tasks = .found value more) : cost more < cost tasks := by
  rw [eq_visit_of_found found]
  simp only [cost, taskCost, visitCost]
  omega

inductive Run : List Task → List Value → List Task → Prop where
  | here (tasks : List Task) : Run tasks [] tasks
  | moved {tasks more final : List Task} {values : List Value} :
      step tasks = .moved more → Run more values final → Run tasks values final
  | found {tasks more final : List Task} {value : Value} {values : List Value} :
      step tasks = .found value more → Run more values final → Run tasks (value :: values) final

theorem Run.cost_le {tasks final : List Task} {values : List Value}
    (run : Run tasks values final) : cost final ≤ cost tasks := by
  induction run with
  | here => exact Nat.le_refl _
  | moved progress _ ih => exact Nat.le_trans ih (Nat.le_of_lt (cost_moved_lt progress))
  | found progress _ ih => exact Nat.le_trans ih (Nat.le_of_lt (cost_found_lt progress))

def nextOf (tasks : List Task) : Option (Value × List Task) :=
  match _moved : step tasks with
  | .finished => none
  | .found value rest => some (value, rest)
  | .moved more => nextOf more
termination_by cost tasks
decreasing_by exact cost_moved_lt _moved

def drain (tasks : List Task) : List Value :=
  match _progress : step tasks with
  | .finished => []
  | .found value rest => value :: drain rest
  | .moved more => drain more
termination_by cost tasks
decreasing_by
  · exact cost_found_lt _progress
  · exact cost_moved_lt _progress

/-- The next value and the cursor after it; at the end none, for ever. -/
def next? (cursor : Cursor) : Option (Value × Cursor) :=
  (nextOf cursor.tasks).map fun (value, tasks) => (value, ⟨tasks⟩)

def toList (cursor : Cursor) : List Value := drain cursor.tasks

def exhausted : Cursor := ⟨[]⟩

end Cursor

def Path.cursor (path : Path) (document : Value) : Cursor := ⟨[.visit document path.selectors]⟩

def Path.first? (path : Path) (document : Value) : Option Value :=
  (path.cursor document).next?.map Prod.fst

end JsonTree
