import Mathlib.Data.List.Nodup
import JsonTree.Proofs.Path.Addresses

/-! Where the selected values stand.

A path can be followed with the way to each value at hand. It then comes to the values that
the cursor finds, in their order, and the ways tell which nodes of the document they are.
A selector that is no descent goes one step down, which keeps apart what was apart. A descent
goes down by any number of steps and may lead from two nodes to one. But the first descent
starts from nodes of one level, none of which stands below another.
-/

set_option autoImplicit false

namespace JsonTree

structure Node where
  way : List Step
  value : Value

namespace Node

def under (way : List Step) (node : Node) : Node := ⟨way ++ node.way, node.value⟩

def extend (below : Value → List Node) (nodes : List Node) : List Node :=
  nodes.flatMap fun node => (below node.value).map (under node.way)

def ways (nodes : List Node) : List (List Step) := nodes.map way

def values (nodes : List Node) : List Value := nodes.map value

def Reached (document : Value) (nodes : List Node) : Prop :=
  ∀ node ∈ nodes, document.Reaches node.way node.value

def Level (depth : Nat) (nodes : List Node) : Prop := ∀ node ∈ nodes, node.way.length = depth

variable {document : Value} {nodes : List Node} {below : Value → List Node}

theorem values_extend {select : Value → List Value}
    (each : ∀ node ∈ nodes, values (below node.value) = select node.value) :
    values (extend below nodes) = (values nodes).flatMap select := by
  rw [values, extend, List.map_flatMap, values, List.flatMap_map]
  refine List.flatMap_congr fun node member => ?_
  rw [List.map_map, ← each node member]
  rfl

theorem reached_extend (top : Reached document nodes)
    (each : ∀ node ∈ nodes, Reached node.value (below node.value)) :
    Reached document (extend below nodes) := by
  intro node member
  obtain ⟨upper, held, member⟩ := List.mem_flatMap.mp member
  obtain ⟨lower, further, rfl⟩ := List.mem_map.mp member
  exact (top upper held).append (each upper held lower further)

theorem level_extend {depth more : Nat} (level : Level depth nodes)
    (each : ∀ value, Level more (below value)) : Level (depth + more) (extend below nodes) := by
  intro node member
  obtain ⟨upper, held, member⟩ := List.mem_flatMap.mp member
  obtain ⟨lower, further, rfl⟩ := List.mem_map.mp member
  rw [under, List.length_append, level upper held, each _ lower further]

/-- Ways that are apart stay apart when they are extended, if they are of one length or if
what they are extended by is. -/
theorem nodup_extend (apart : (ways nodes).Nodup)
    (each : ∀ node ∈ nodes, (ways (below node.value)).Nodup)
    (aligned : (∃ depth, Level depth nodes) ∨ ∃ depth, ∀ value, Level depth (below value)) :
    (ways (extend below nodes)).Nodup := by
  rw [ways, extend, List.map_flatMap, List.nodup_flatMap]
  constructor
  · intro node member
    have extended : ((below node.value).map (under node.way)).map way
        = (ways (below node.value)).map (node.way ++ ·) := by
      rw [ways, List.map_map, List.map_map]
      rfl
    rw [extended]
    exact (each node member).map (List.append_right_injective node.way)
  · refine (List.pairwise_map.mp apart).imp_of_mem fun {first second} held heldToo differ => ?_
    intro shared inFirst inSecond
    obtain ⟨_, member, rfl⟩ := List.mem_map.mp inFirst
    obtain ⟨left, leftBelow, rfl⟩ := List.mem_map.mp member
    obtain ⟨_, memberToo, same⟩ := List.mem_map.mp inSecond
    obtain ⟨right, rightBelow, rfl⟩ := List.mem_map.mp memberToo
    have ends : second.way ++ right.way = first.way ++ left.way := same
    refine differ ?_
    -- Equal ways split at one place, counted from the front or from the end.
    rcases aligned with ⟨depth, level⟩ | ⟨depth, level⟩
    · exact (List.append_inj ends ((level _ heldToo).trans (level _ held).symm)).1.symm
    · exact (List.append_inj' ends
        ((level _ _ rightBelow).trans (level _ _ leftBelow).symm)).1.symm

end Node

open Node

namespace Value

def itemBranches (start : Nat) (items : List Value) : List Node :=
  (items.zipIdx start).map fun place => ⟨[.item place.2], place.1⟩

def branches : Value → List Node
  | .array items => itemBranches 0 items
  | .object members => members.map fun member => ⟨[.member member.1], member.2⟩
  | _ => []

mutual

def nodesBelow : Value → List Node
  | .array items => itemNodes 0 items
  | .object members => memberNodes members
  | _ => []

def itemNodes (start : Nat) : List Value → List Node
  | [] => []
  | item :: rest =>
    (⟨[], item⟩ :: item.nodesBelow).map (under [.item start]) ++ itemNodes (start + 1) rest

def memberNodes : List (String × Value) → List Node
  | [] => []
  | (key, value) :: rest =>
    (⟨[], value⟩ :: value.nodesBelow).map (under [.member key]) ++ memberNodes rest

end

def nodes (value : Value) : List Node := ⟨[], value⟩ :: value.nodesBelow

theorem itemNodes_eq (start : Nat) (items : List Value) :
    itemNodes start items = extend nodes (itemBranches start items) := by
  induction items generalizing start with
  | nil => rfl
  | cons item rest ih => rw [itemNodes, ih]; rfl

theorem memberNodes_eq (members : Members) :
    memberNodes members = extend nodes (object members).branches := by
  induction members with
  | nil => rfl
  | cons member rest ih => rw [memberNodes, ih]; rfl

theorem nodesBelow_eq (value : Value) : value.nodesBelow = extend nodes value.branches := by
  cases value with
  | array items => rw [nodesBelow, itemNodes_eq]; rfl
  | object members => rw [nodesBelow, memberNodes_eq]
  | _ => rfl

theorem values_itemBranches (start : Nat) (items : List Value) :
    values (itemBranches start items) = items := by
  rw [values, itemBranches, List.map_map]
  exact List.zipIdx_map_fst start items

theorem values_branches (value : Value) : values value.branches = value.children := by
  cases value with
  | array items => exact values_itemBranches 0 items
  | object members =>
    rw [values, branches, List.map_map]
    rfl
  | _ => rfl

theorem reached_itemBranches (items : List Value) :
    Reached (array items) (itemBranches 0 items) := by
  intro node member
  obtain ⟨⟨item, index⟩, held, rfl⟩ := List.mem_map.mp member
  exact .down (.item (List.mem_zipIdx_iff_getElem?.mp held)) (.here item)

theorem reached_branches (value : Value) : Reached value value.branches := by
  cases value with
  | array items => exact reached_itemBranches items
  | object members =>
    intro node member
    obtain ⟨⟨key, inner⟩, held, rfl⟩ := List.mem_map.mp member
    exact .down (.member held) (.here inner)
  | _ => exact List.forall_mem_nil _

theorem level_itemBranches (start : Nat) (items : List Value) :
    Level 1 (itemBranches start items) :=
  List.forall_mem_map.mpr fun _ _ => rfl

theorem level_branches (value : Value) : Level 1 value.branches := by
  cases value with
  | array items => exact level_itemBranches 0 items
  | object members => exact List.forall_mem_map.mpr fun _ _ => rfl
  | _ => exact List.forall_mem_nil _

theorem nodup_itemBranches (start : Nat) (items : List Value) :
    (ways (itemBranches start items)).Nodup := by
  have indices : ways (itemBranches start items)
      = (List.range' start items.length).map fun index => [Step.item index] := by
    rw [← List.zipIdx_map_snd, ways, itemBranches, List.map_map, List.map_map]
    rfl
  rw [indices]
  refine List.Nodup.map (fun first second same => ?_) List.nodup_range'
  exact Step.item.inj (List.head_eq_of_cons_eq same)

theorem nodup_branches {value : Value} (distinct : value.DistinctKeys) :
    (ways value.branches).Nodup := by
  cases value with
  | array items => exact nodup_itemBranches 0 items
  | object members =>
    have names : ways (object members).branches
        = (Members.keys members).map fun key => [Step.member key] := by
      rw [ways, branches, Members.keys, List.map_map, List.map_map]
      rfl
    rw [names]
    refine (distinctKeys_object.mp distinct).1.map fun first second same => ?_
    exact Step.member.inj (List.head_eq_of_cons_eq same)
  | _ => exact List.nodup_nil

theorem mem_children_of_branch {value : Value} {node : Node} (branch : node ∈ value.branches) :
    node.value ∈ value.children := by
  rw [← values_branches]
  exact List.mem_map_of_mem branch

-- Each of the following is by induction on the value, as the nodes below it are those of its
-- branches.

theorem values_nodes (value : Value) : values value.nodes = value :: value.descendants := by
  induction value using induction_children with
  | step value ih =>
    have below : values value.nodesBelow = value.descendants := by
      rw [nodesBelow_eq, descendants_eq, ← values_branches]
      exact values_extend fun node branch => ih _ (mem_children_of_branch branch)
    rw [← below]
    rfl

theorem reached_nodes (value : Value) : Reached value value.nodes := by
  induction value using induction_children with
  | step value ih =>
    refine List.forall_mem_cons.mpr ⟨.here value, ?_⟩
    rw [nodesBelow_eq]
    exact reached_extend value.reached_branches fun node branch =>
      ih _ (mem_children_of_branch branch)

theorem nodup_nodes {value : Value} (distinct : value.DistinctKeys) :
    (ways value.nodes).Nodup := by
  induction value using induction_children with
  | step value ih =>
    have below : (ways value.nodesBelow).Nodup := by
      rw [nodesBelow_eq]
      refine nodup_extend (nodup_branches distinct) (fun node branch => ?_)
        (.inl ⟨1, value.level_branches⟩)
      have child := mem_children_of_branch branch
      exact ih _ child ((everywhere_iff.mp distinct).2 _ child)
    refine List.nodup_cons.mpr ⟨fun back => ?_, below⟩
    -- Whatever stands below has a way of at least one step.
    obtain ⟨node, inside, stays⟩ := List.mem_map.mp back
    rw [nodesBelow_eq] at inside
    obtain ⟨upper, branch, inside⟩ := List.mem_flatMap.mp inside
    obtain ⟨lower, -, rfl⟩ := List.mem_map.mp inside
    have step := value.level_branches upper branch
    rw [(List.append_eq_nil_iff.mp stays).1] at step
    contradiction

def place (value : Value) (position : Int) : Nat :=
  (if position < 0 then position + value.items.length else position).toNat

theorem has_of_item? {value inner : Value} {position : Int}
    (found : value.item? position = some inner) :
    value.Has (.item (value.place position)) inner := by
  have there : value.items[value.place position]? = some inner := by
    simp only [item?] at found
    rw [place]
    generalize (if position < 0 then position + (value.items.length : Int) else position) = index
      at found ⊢
    split at found
    · contradiction
    · exact found
  cases value with
  | array items => exact .item there
  | _ => contradiction

theorem has_of_member? {value inner : Value} {name : String}
    (found : value.member? name = some inner) : value.Has (.member name) inner := by
  cases value with
  | object members => exact .member (Members.mem_of_get? found)
  | _ => contradiction

end Value

namespace Selector

/-- What one selector selects from a value, with the ways to it; `last` says that no selector
follows. -/
def nodes (last : Bool) (selector : Selector) (value : Value) : List Node :=
  match selector with
  | .property name =>
    ((value.member? name).map fun inner => ⟨[.member name], inner⟩).toList
  | .index position =>
    ((value.item? position).map fun item => ⟨[.item (value.place position)], item⟩).toList
  | .wildcard => value.branches
  | .descent => if last then value.nodesBelow else value.nodes
  | .filter condition =>
    (Value.itemBranches 0 value.items).filter fun node => condition.accepts node.value

variable {last : Bool} {value : Value} {selector : Selector}

theorem values_nodes (last : Bool) (value : Value) (selector : Selector) :
    values (selector.nodes last value) = selector.select last value := by
  cases selector with
  | property name =>
    simp only [nodes, select]
    cases value.member? name <;> rfl
  | index position =>
    simp only [nodes, select]
    cases value.item? position <;> rfl
  | wildcard => exact value.values_branches
  | descent =>
    cases last with
    | true => exact (List.cons.inj value.values_nodes).2
    | false => exact value.values_nodes
  | filter condition =>
    have inside := List.filter_map (l := Value.itemBranches 0 value.items) (f := Node.value)
      (p := condition.accepts)
    rw [show (Value.itemBranches 0 value.items).map Node.value = value.items from
      Value.values_itemBranches 0 value.items] at inside
    exact inside.symm

theorem reached_nodes (last : Bool) (value : Value) (selector : Selector) :
    Reached value (selector.nodes last value) := by
  cases selector with
  | property name =>
    intro node selected
    obtain ⟨inner, found, rfl⟩ := Option.map_eq_some_iff.mp (Option.mem_toList.mp selected)
    exact .down (Value.has_of_member? found) (.here inner)
  | index position =>
    intro node selected
    obtain ⟨inner, found, rfl⟩ := Option.map_eq_some_iff.mp (Option.mem_toList.mp selected)
    exact .down (Value.has_of_item? found) (.here inner)
  | wildcard => exact value.reached_branches
  | descent =>
    cases last with
    | true => exact (List.forall_mem_cons.mp value.reached_nodes).2
    | false => exact value.reached_nodes
  | filter condition =>
    intro node selected
    obtain ⟨held, -⟩ := List.mem_filter.mp selected
    cases value with
    | array items => exact Value.reached_itemBranches items node held
    | _ => contradiction

theorem nodup_nodes (distinct : value.DistinctKeys) (last : Bool) (selector : Selector) :
    (ways (selector.nodes last value)).Nodup := by
  cases selector with
  | property name =>
    simp only [nodes]
    cases value.member? name <;> simp [ways]
  | index position =>
    simp only [nodes]
    cases value.item? position <;> simp [ways]
  | wildcard => exact Value.nodup_branches distinct
  | descent =>
    cases last with
    | true => exact (List.nodup_cons.mp (Value.nodup_nodes distinct)).2
    | false => exact Value.nodup_nodes distinct
  | filter condition =>
    exact (Value.nodup_itemBranches 0 value.items).sublist (List.filter_sublist.map Node.way)

theorem level_nodes (step : selector ≠ .descent) (last : Bool) (value : Value) :
    Level 1 (selector.nodes last value) := by
  cases selector with
  | property name =>
    intro node selected
    obtain ⟨inner, found, rfl⟩ := Option.map_eq_some_iff.mp (Option.mem_toList.mp selected)
    rfl
  | index position =>
    intro node selected
    obtain ⟨inner, found, rfl⟩ := Option.map_eq_some_iff.mp (Option.mem_toList.mp selected)
    rfl
  | wildcard => exact value.level_branches
  | descent => contradiction
  | filter condition =>
    exact fun node selected =>
      Value.level_itemBranches 0 value.items node (List.mem_filter.mp selected).1

end Selector

def nodesAll : List Selector → List Node → List Node
  | [], nodes => nodes
  | selector :: rest, nodes =>
    nodesAll rest (extend (selector.nodes rest.isEmpty) nodes)

section

variable {document : Value}

theorem values_nodesAll (selectors : List Selector) (nodes : List Node) :
    values (nodesAll selectors nodes) = selectAll selectors (values nodes) := by
  induction selectors generalizing nodes with
  | nil => rfl
  | cons selector rest ih =>
    rw [nodesAll, selectAll, ih]
    exact congrArg _ (values_extend fun node _ => selector.values_nodes rest.isEmpty node.value)

theorem reached_nodesAll (selectors : List Selector) {nodes : List Node}
    (top : Reached document nodes) : Reached document (nodesAll selectors nodes) := by
  induction selectors generalizing nodes with
  | nil => exact top
  | cons selector rest ih =>
    exact ih (reached_extend top fun node _ => selector.reached_nodes rest.isEmpty node.value)

/-- Nodes that are apart stay apart up to a second descent, the first one being met at nodes of
one level. -/
theorem nodup_nodesAll (distinct : document.DistinctKeys) (selectors : List Selector)
    {nodes : List Node} (top : Reached document nodes) (apart : (ways nodes).Nodup)
    (once : selectors.count .descent = 0
      ∨ selectors.count .descent ≤ 1 ∧ ∃ depth, Level depth nodes) :
    (ways (nodesAll selectors nodes)).Nodup := by
  induction selectors generalizing nodes with
  | nil => exact apart
  | cons selector rest ih =>
    have reached := reached_extend top
      fun node _ => selector.reached_nodes rest.isEmpty node.value
    have each : ∀ node ∈ nodes, (ways (selector.nodes rest.isEmpty node.value)).Nodup :=
      fun node member =>
        selector.nodup_nodes ((top node member).everywhere distinct) rest.isEmpty
    -- A descent uses up the level that the nodes have; every other selector moves it one step down.
    by_cases descent : selector = .descent
    · subst descent
      rw [List.count_cons_self] at once
      rcases once with none | ⟨atMost, level⟩
      · omega
      · exact ih reached (nodup_extend apart each (.inl level)) (.inl (by omega))
    · have step := fun value => Selector.level_nodes descent rest.isEmpty value
      rw [List.count_cons_of_ne descent] at once
      refine ih reached (nodup_extend apart each (.inr ⟨1, step⟩)) (once.imp_right ?_)
      rintro ⟨atMost, depth, level⟩
      exact ⟨atMost, depth + 1, level_extend level step⟩

end

namespace Path

/-- The nodes that a path selects from a document. -/
def nodes (path : Path) (document : Value) : List Node :=
  nodesAll path.selectors [⟨[], document⟩]

def pointers (path : Path) (document : Value) : List Pointer :=
  (path.nodes document).map fun node => Pointer.ofSteps node.way

theorem reached_nodes (path : Path) (document : Value) : Reached document (path.nodes document) :=
  reached_nodesAll path.selectors (List.forall_mem_singleton.mpr (.here document))

theorem values_nodes (path : Path) (document : Value) :
    values (path.nodes document) = path.results document :=
  values_nodesAll path.selectors [⟨[], document⟩]

/-- The values that a query yields are those at the pointers of a path, one by one. With at most
one descent in the path no two of these pointers are the same, so no node is yielded twice. -/
theorem yields_nodes {document : Value} (path : Path) (distinct : document.DistinctKeys)
    (bounded : document.ArraysWithin greatestUInt64) :
    List.Forall₂ (fun pointer value => pointer.get document = .ok value)
        (path.pointers document) (path.cursor document).toList
      ∧ (path.selectors.count .descent ≤ 1 → (path.pointers document).Nodup) := by
  have nameable : document.Nameable := ⟨distinct, bounded⟩
  have reached := path.reached_nodes document
  constructor
  · rw [toList_cursor, ← values_nodes, pointers, values, List.forall₂_map_left_iff,
      List.forall₂_map_right_iff, List.forall₂_same]
    exact fun node member => Pointer.get_ofSteps nameable (reached node member)
  · intro once
    have apart : (ways (path.nodes document)).Nodup :=
      nodup_nodesAll distinct path.selectors (List.forall_mem_singleton.mpr (.here document))
        (List.nodup_singleton _) (.inr ⟨once, 0, List.forall_mem_singleton.mpr rfl⟩)
    have spelled : path.pointers document = (ways (path.nodes document)).map Pointer.ofSteps := by
      rw [pointers, ways, List.map_map]
      rfl
    rw [spelled]
    refine apart.map_on fun steps member others memberToo same => ?_
    obtain ⟨node, held, rfl⟩ := List.mem_map.mp member
    obtain ⟨other, heldToo, rfl⟩ := List.mem_map.mp memberToo
    exact Pointer.ofSteps_injOn nameable ⟨_, reached node held⟩ ⟨_, reached other heldToo⟩
      (congrArg Pointer.text same)

/-- Below a descent, last items that are equal and stand on one another. -/
theorem yields_nodes_last_items :
    let path : Path := ⟨"$.*..[-1]", [.wildcard, .descent, .index (-1)]⟩
    let one : Value := .number (.ofInt 1)
    let document : Value :=
      .object [("a", .array [.array [one, one], .array [one]]), ("b", .array [.null])]
    document.DistinctKeys ∧ document.ArraysWithin greatestUInt64
      ∧ path.selectors.count .descent ≤ 1
      ∧ (path.pointers document).map Pointer.text = ["/a/1", "/a/0/1", "/a/1/0", "/b/0"]
      ∧ List.Forall₂ (fun pointer value => pointer.get document = .ok value)
        (path.pointers document) (path.cursor document).toList
      ∧ (path.pointers document).Nodup := by
  intro path one document
  have distinct : document.DistinctKeys := by decide
  have bounded : document.ArraysWithin greatestUInt64 := by decide
  have once : path.selectors.count .descent ≤ 1 := by decide
  obtain ⟨same, apart⟩ := path.yields_nodes distinct bounded
  exact ⟨distinct, bounded, once, by decide +kernel, same, apart once⟩

/-- A second descent comes back to what the first one went past. -/
example : (pointers ⟨"$....", [.descent, .descent]⟩ (.array [.array [.null]])).map Pointer.text
    = ["/0", "/0/0", "/0/0"] := by decide +kernel

end Path

end JsonTree
