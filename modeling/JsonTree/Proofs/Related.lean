import Mathlib.Data.List.Forall2

/-! Options and lists that are related value by value, lists without repetitions, and checks of
each character of a text. -/

set_option autoImplicit false

namespace JsonTree

section

variable {α β : Type} {related : α → β → Prop} {first : Option α} {second : Option β}

theorem rel_cases (rel : Option.Rel related first second) :
    (first = none ∧ second = none)
      ∨ ∃ left right, first = some left ∧ second = some right ∧ related left right := by
  cases rel with
  | some pair => exact .inr ⟨_, _, rfl, rfl, pair⟩
  | none => exact .inl ⟨rfl, rfl⟩

theorem rel_some (rel : Option.Rel related first second) {left : α} (held : first = some left) :
    ∃ right, second = some right ∧ related left right := by
  cases rel with
  | some pair =>
    obtain rfl := Option.some.inj held
    exact ⟨_, rfl, pair⟩
  | none => contradiction

theorem rel_none_iff (rel : Option.Rel related first second) : first = none ↔ second = none := by
  cases rel <;> simp

theorem rel_isSome (rel : Option.Rel related first second) : first.isSome = second.isSome := by
  cases rel <;> rfl

end

section

variable {α β γ : Type} {related : α → β → Prop} {lefts : List α} {rights : List β}

theorem forall₂_getElem? (each : List.Forall₂ related lefts rights) (index : Nat) :
    Option.Rel related lefts[index]? rights[index]? := by
  induction each generalizing index with
  | nil => exact .none
  | cons head _ ih =>
    cases index with
    | zero => exact .some head
    | succ index => exact ih index

theorem forall₂_set (each : List.Forall₂ related lefts rights) {left : α} {right : β}
    (new : related left right) (index : Nat) :
    List.Forall₂ related (lefts.set index left) (rights.set index right) := by
  induction each generalizing index with
  | nil => exact .nil
  | cons head rest ih =>
    cases index with
    | zero => exact .cons new rest
    | succ index => exact .cons head (ih index)

theorem forall₂_eraseIdx (each : List.Forall₂ related lefts rights) (index : Nat) :
    List.Forall₂ related (lefts.eraseIdx index) (rights.eraseIdx index) := by
  induction each generalizing index with
  | nil => exact .nil
  | cons head rest ih =>
    cases index with
    | zero => exact rest
    | succ index => exact .cons head (ih index)

theorem forall₂_insertIdx (each : List.Forall₂ related lefts rights) {left : α} {right : β}
    (new : related left right) (index : Nat) :
    List.Forall₂ related (lefts.insertIdx index left) (rights.insertIdx index right) := by
  induction each generalizing index with
  | nil =>
    cases index with
    | zero => exact .cons new .nil
    | succ index => exact .nil
  | cons head rest ih =>
    cases index with
    | zero => exact .cons new (.cons head rest)
    | succ index =>
      rw [List.insertIdx_succ_cons, List.insertIdx_succ_cons]
      exact .cons head (ih index)

theorem exists_of_forall₂ (each : List.Forall₂ related lefts rights) :
    (∀ left ∈ lefts, ∃ right ∈ rights, related left right)
      ∧ ∀ right ∈ rights, ∃ left ∈ lefts, related left right := by
  induction each with
  | nil => exact ⟨List.forall_mem_nil _, List.forall_mem_nil _⟩
  | cons pair _ ih =>
    constructor
    · refine List.forall_mem_cons.mpr ⟨⟨_, List.mem_cons_self, pair⟩, fun left member => ?_⟩
      obtain ⟨right, known, rel⟩ := ih.1 left member
      exact ⟨right, List.mem_cons_of_mem _ known, rel⟩
    · refine List.forall_mem_cons.mpr ⟨⟨_, List.mem_cons_self, pair⟩, fun right member => ?_⟩
      obtain ⟨left, known, rel⟩ := ih.2 right member
      exact ⟨left, List.mem_cons_of_mem _ known, rel⟩

theorem forall₂_imp_of_mem {also : α → β → Prop} (each : List.Forall₂ related lefts rights)
    (more : ∀ left ∈ lefts, ∀ right ∈ rights, related left right → also left right) :
    List.Forall₂ also lefts rights := by
  induction each with
  | nil => exact .nil
  | cons pair _ ih =>
    refine .cons (more _ List.mem_cons_self _ List.mem_cons_self pair) (ih ?_)
    exact fun left inLefts right inRights =>
      more left (List.mem_cons_of_mem _ inLefts) right (List.mem_cons_of_mem _ inRights)

theorem forall₂_trans {back : β → γ → Prop} {lasts : List γ}
    (each : List.Forall₂ related lefts rights) (next : List.Forall₂ back rights lasts) :
    List.Forall₂ (fun left last => ∃ middle, related left middle ∧ back middle last) lefts
      lasts := by
  induction each generalizing lasts with
  | nil => cases next; exact .nil
  | cons pair _ ih =>
    cases next with
    | cons onward later => exact .cons ⟨_, pair, onward⟩ (ih later)

theorem forall₂_replace {front back : List β} {old new : β}
    (each : List.Forall₂ related lefts (front ++ old :: back))
    (more : ∀ left ∈ lefts, related left old → related left new) :
    List.Forall₂ related lefts (front ++ new :: back) := by
  induction front generalizing lefts with
  | nil =>
    cases each with
    | cons pair rest => exact .cons (more _ List.mem_cons_self pair) rest
  | cons head front ih =>
    cases each with
    | cons pair rest =>
      exact .cons pair (ih rest fun left member => more left (List.mem_cons_of_mem _ member))

end

theorem eraseDups_concat {α : Type} [BEq α] [LawfulBEq α] (items : List α) (item : α) :
    (items ++ [item]).eraseDups
      = if item ∈ items then items.eraseDups else items.eraseDups ++ [item] := by
  rw [List.eraseDups_append]
  split
  · next before => simp [List.removeAll, before]
  · next new => simp [List.removeAll, new, List.eraseDups_cons]

-- There are finitely many characters, and deciding a statement about those of a text may go
-- through all that there are. A check of the text itself does not.

theorem forall_of_all {property : Char → Prop} [DecidablePred property] {text : List Char}
    (all : text.all (fun c => decide (property c)) = true) : ∀ c ∈ text, property c := by
  simpa using all

end JsonTree
