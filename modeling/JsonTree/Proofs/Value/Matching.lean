import Mathlib.Data.List.Perm.Basic
import JsonTree.Proofs.Related
import JsonTree.Value.Equality

/-! Matching two lists greedily, from either side.

Going through the list on the left, each element takes the first one on the right that it
accepts and that is still there. Going through the list on the right instead takes the
same pairs: what the first on the left takes is refused by everything in front of it, so
from the other side it meets the first on the left untaken, and at the head. No law of the
relation is needed for this, and none of an equality.

Whether greedy matching finds a pairing that there is does take a law: what two on the right
are both accepted by one on the left must have the same acceptors on the left.
-/

set_option autoImplicit false

namespace JsonTree

variable {α β : Type}

theorem takeFirst_eq_none_iff {accepts : α → Bool} {list : List α} :
    takeFirst accepts list = none ↔ ∀ element ∈ list, accepts element = false := by
  induction list with
  | nil => simp [takeFirst]
  | cons head rest ih =>
    rw [List.forall_mem_cons, ← ih, takeFirst]
    by_cases taken : accepts head
    · simp [taken]
    · simp [taken]

theorem split_of_takeFirst {accepts : α → Bool} {list rest : List α}
    (taken : takeFirst accepts list = some rest) :
    ∃ front hit back, list = front ++ hit :: back ∧ rest = front ++ back ∧ accepts hit = true
      ∧ ∀ element ∈ front, accepts element = false := by
  induction list generalizing rest with
  | nil => contradiction
  | cons head tail ih =>
    rw [takeFirst] at taken
    split at taken
    · next accepted =>
      obtain rfl := Option.some.inj taken
      exact ⟨[], head, tail, rfl, rfl, accepted, List.forall_mem_nil _⟩
    · next refused =>
      obtain ⟨others, later, rfl⟩ := Option.map_eq_some_iff.mp taken
      obtain ⟨front, hit, back, rfl, rfl, accepted, before⟩ := ih later
      refine ⟨head :: front, hit, back, rfl, rfl, accepted, ?_⟩
      exact List.forall_mem_cons.mpr ⟨Bool.not_eq_true _ ▸ refused, before⟩

/-- Each element on the left takes the first that it accepts and no earlier one has taken. -/
def matchAll (accepts : α → β → Bool) : List α → List β → Bool
  | [], _ => true
  | left :: lefts, rights =>
    match takeFirst (accepts left) rights with
    | some rights => matchAll accepts lefts rights
    | none => false

theorem takeFirst_congr {first second : α → Bool} {list : List α}
    (agree : ∀ element ∈ list, first element = second element) :
    takeFirst first list = takeFirst second list := by
  induction list with
  | nil => rfl
  | cons head rest ih =>
    obtain ⟨same, others⟩ := List.forall_mem_cons.mp agree
    rw [takeFirst, takeFirst, same, ih others]

theorem matchAll_congr {first second : α → β → Bool} {lefts : List α} {rights : List β}
    (agree : ∀ left ∈ lefts, ∀ right ∈ rights, first left right = second left right) :
    matchAll first lefts rights = matchAll second lefts rights := by
  induction lefts generalizing rights with
  | nil => rfl
  | cons left lefts ih =>
    obtain ⟨head, others⟩ := List.forall_mem_cons.mp agree
    rw [matchAll, matchAll, takeFirst_congr head]
    cases taken : takeFirst (second left) rights with
    | none => rfl
    | some rest =>
      obtain ⟨front, hit, back, rfl, rfl, -, -⟩ := split_of_takeFirst taken
      apply ih
      intro left inLefts right inRest
      apply others left inLefts right
      exact List.mem_append.mpr ((List.mem_append.mp inRest).imp_right (List.mem_cons_of_mem _))

theorem length_le_of_matchAll {accepts : α → β → Bool} {lefts : List α} {rights : List β}
    (matched : matchAll accepts lefts rights) : lefts.length ≤ rights.length := by
  induction lefts generalizing rights with
  | nil => exact Nat.zero_le _
  | cons left lefts ih =>
    rw [matchAll] at matched
    split at matched
    · next rest taken =>
      obtain ⟨front, hit, back, rfl, rfl, -, -⟩ := split_of_takeFirst taken
      have shorter := ih matched
      simp only [List.length_append, List.length_cons] at shorter ⊢
      omega
    · contradiction

theorem matchAll_cons_of_refused {accepts : α → β → Bool} {lefts : List α} {head : β}
    (refused : ∀ left ∈ lefts, accepts left head = false) (rights : List β) :
    matchAll accepts lefts (head :: rights) = matchAll accepts lefts rights := by
  induction lefts generalizing rights with
  | nil => rfl
  | cons left lefts ih =>
    obtain ⟨first, others⟩ := List.forall_mem_cons.mp refused
    rw [matchAll, matchAll, takeFirst, if_neg (by simp [first])]
    cases takeFirst (accepts left) rights with
    | none => rfl
    | some rest => exact ih others rest

/-- The head of the right is taken by the first on the left that accepts it, and the
others match as if both were not there. -/
theorem matchAll_cons_of_accepted (accepts : α → β → Bool) {front back : List α} {hit : α}
    {head : β} (refused : ∀ left ∈ front, accepts left head = false)
    (accepted : accepts hit head = true) (rights : List β) :
    matchAll accepts (front ++ hit :: back) (head :: rights)
      = matchAll accepts (front ++ back) rights := by
  induction front generalizing rights with
  | nil => rw [List.nil_append, matchAll, takeFirst, if_pos accepted]; rfl
  | cons left front ih =>
    obtain ⟨first, others⟩ := List.forall_mem_cons.mp refused
    rw [List.cons_append, matchAll, takeFirst, if_neg (by simp [first]), List.cons_append,
      matchAll]
    cases takeFirst (accepts left) rights with
    | none => rfl
    | some rest => exact ih others rest

/-- Lists of one length match from the left just when they match from the right. -/
theorem matchAll_swap (accepts : α → β → Bool) {lefts : List α} {rights : List β}
    (same : lefts.length = rights.length) :
    matchAll accepts lefts rights
      = matchAll (fun right left => accepts left right) rights lefts := by
  induction lefts generalizing rights with
  | nil =>
    obtain rfl := List.eq_nil_of_length_eq_zero same.symm
    rfl
  | cons left lefts ih =>
    rw [matchAll]
    cases taken : takeFirst (accepts left) rights with
    | none =>
      -- Nobody takes the first one, so one on the right too many is left for the others.
      have refused := takeFirst_eq_none_iff.mp taken
      rw [matchAll_cons_of_refused refused lefts]
      refine (Bool.eq_false_iff.mpr fun matched => ?_).symm
      have short := length_le_of_matchAll matched
      rw [← same, List.length_cons] at short
      omega
    | some rest =>
      obtain ⟨front, hit, back, rfl, rfl, accepted, refused⟩ := split_of_takeFirst taken
      rw [matchAll_cons_of_accepted (fun right left => accepts left right) refused accepted]
      apply ih
      simp only [List.length_append, List.length_cons] at same ⊢
      omega

/-- A list that stands for another one: itself, or an arrangement of it. -/
def ArrayOrder.Arranges : ArrayOrder → List α → List α → Prop
  | .ordered => Eq
  | .unordered => List.Perm

/-- The left is related place by place to a list that stands for the right. -/
def Paired (order : ArrayOrder) (related : α → β → Prop) (lefts : List α) (rights : List β) :
    Prop :=
  ∃ arranged, order.Arranges arranged rights ∧ List.Forall₂ related lefts arranged

section

variable {γ : Type} {order : ArrayOrder} {related : α → β → Prop} {lefts : List α}
  {rights : List β}

theorem ArrayOrder.arranges_refl (order : ArrayOrder) (list : List α) :
    order.Arranges list list := by
  cases order with
  | ordered => exact Eq.refl list
  | unordered => exact List.Perm.refl list

theorem ArrayOrder.Arranges.symm {first second : List α} (arranges : order.Arranges first second) :
    order.Arranges second first := by
  cases order with
  | ordered => exact Eq.symm arranges
  | unordered => exact List.Perm.symm arranges

theorem ArrayOrder.Arranges.trans {first second third : List α}
    (front : order.Arranges first second) (back : order.Arranges second third) :
    order.Arranges first third := by
  cases order with
  | ordered => exact Eq.trans front back
  | unordered => exact List.Perm.trans front back

theorem ArrayOrder.Arranges.perm {first second : List α} (arranges : order.Arranges first second) :
    first.Perm second := by
  cases order with
  | ordered => exact List.Perm.of_eq arranges
  | unordered => exact arranges

/-- What is related place by place can be rearranged on the left first. -/
theorem ArrayOrder.Arranges.comp_forall₂ {arranged : List α}
    (arranges : order.Arranges arranged lefts) (each : List.Forall₂ related lefts rights) :
    ∃ others, List.Forall₂ related arranged others ∧ order.Arranges others rights := by
  cases order with
  | ordered =>
    obtain rfl : arranged = lefts := arranges
    exact ⟨rights, each, Eq.refl rights⟩
  | unordered => exact List.perm_comp_forall₂ arranges each

theorem paired_ordered :
    Paired .ordered related lefts rights ↔ List.Forall₂ related lefts rights := by
  constructor
  · rintro ⟨arranged, rfl, each⟩
    exact each
  · exact fun each => ⟨rights, Eq.refl rights, each⟩

theorem paired_of_forall₂ (each : List.Forall₂ related lefts rights) :
    Paired order related lefts rights :=
  ⟨rights, order.arranges_refl rights, each⟩

theorem Paired.length_eq (paired : Paired order related lefts rights) :
    lefts.length = rights.length := by
  obtain ⟨arranged, arranges, each⟩ := paired
  exact each.length_eq.trans arranges.perm.length_eq

theorem Paired.exists_right (paired : Paired order related lefts rights) {left : α}
    (member : left ∈ lefts) : ∃ right ∈ rights, related left right := by
  obtain ⟨arranged, arranges, each⟩ := paired
  obtain ⟨right, known, rel⟩ := (exists_of_forall₂ each).1 left member
  exact ⟨right, arranges.perm.subset known, rel⟩

theorem Paired.exists_left (paired : Paired order related lefts rights) {right : β}
    (member : right ∈ rights) : ∃ left ∈ lefts, related left right := by
  obtain ⟨arranged, arranges, each⟩ := paired
  exact (exists_of_forall₂ each).2 right (arranges.perm.symm.subset member)

theorem Paired.imp_of_mem {also : α → β → Prop} (paired : Paired order related lefts rights)
    (more : ∀ left ∈ lefts, ∀ right ∈ rights, related left right → also left right) :
    Paired order also lefts rights := by
  obtain ⟨arranged, arranges, each⟩ := paired
  refine ⟨arranged, arranges, forall₂_imp_of_mem each fun left inLefts right inRights => ?_⟩
  exact more left inLefts right (arranges.perm.subset inRights)

theorem paired_congr {also : α → β → Prop}
    (agree : ∀ left ∈ lefts, ∀ right ∈ rights, (related left right ↔ also left right)) :
    Paired order related lefts rights ↔ Paired order also lefts rights := by
  constructor
  · exact fun paired => paired.imp_of_mem fun left inLefts right inRights =>
      (agree left inLefts right inRights).mp
  · exact fun paired => paired.imp_of_mem fun left inLefts right inRights =>
      (agree left inLefts right inRights).mpr

theorem paired_self {related : α → α → Prop} (each : ∀ left ∈ lefts, related left left) :
    Paired order related lefts lefts :=
  paired_of_forall₂ (List.forall₂_same.mpr each)

theorem Paired.symm (paired : Paired order related lefts rights) :
    Paired order (fun right left => related left right) rights lefts := by
  obtain ⟨arranged, arranges, each⟩ := paired
  obtain ⟨others, back, known⟩ := arranges.symm.comp_forall₂ (List.Forall₂.flip each)
  exact ⟨others, known, back⟩

theorem Paired.trans {back : β → γ → Prop} {lasts : List γ}
    (front : Paired order related lefts rights) (next : Paired order back rights lasts) :
    Paired order (fun left last => ∃ middle, related left middle ∧ back middle last) lefts
      lasts := by
  obtain ⟨arranged, arranges, each⟩ := front
  obtain ⟨others, known, later⟩ := next
  obtain ⟨moved, onward, places⟩ := arranges.comp_forall₂ later
  exact ⟨moved, places.trans known, forall₂_trans each onward⟩

end

/-- A pairing in which the first takes another one that it accepts. -/
theorem exists_rest_of_forall₂ {accepts : α → β → Bool} {left : α} {lefts : List α} {hit : β}
    {arranged rest : List β}
    (each : List.Forall₂ (fun left right => accepts left right = true) (left :: lefts) arranged)
    (places : arranged.Perm (hit :: rest))
    (exchange : ∀ other ∈ lefts, ∀ right ∈ hit :: rest, accepts left right = true →
      accepts other hit = true → accepts other right = true) :
    ∃ others, others.Perm rest
      ∧ List.Forall₂ (fun left right => accepts left right = true) lefts others := by
  cases each with
  | @cons _ first _ later pair each =>
    rcases List.mem_cons.mp (places.symm.subset List.mem_cons_self) with rfl | taken
    · exact ⟨later, (List.perm_cons hit).mp places, each⟩
    · obtain ⟨front, back, rfl⟩ := List.append_of_mem taken
      -- Who had what is taken gets what the first had.
      refine ⟨front ++ first :: back, ?_, forall₂_replace each fun other member =>
        exchange other member first (places.subset List.mem_cons_self) pair⟩
      refine List.perm_middle.trans ((List.perm_cons hit).mp ?_)
      exact (List.Perm.swap first hit _).trans ((List.perm_middle.symm.cons first).trans places)

/-- Greedy matching finds a pairing whenever there is one, if any that one on the left
accepts have the same acceptors. -/
theorem matchAll_iff_paired {accepts : α → β → Bool} {lefts : List α} {rights : List β}
    (same : lefts.length = rights.length)
    (exchange : ∀ left ∈ lefts, ∀ other ∈ lefts, ∀ hit ∈ rights, ∀ right ∈ rights,
      accepts left hit = true → accepts left right = true → accepts other hit = true →
      accepts other right = true) :
    matchAll accepts lefts rights = true
      ↔ Paired .unordered (fun left right => accepts left right = true) lefts rights := by
  induction lefts generalizing rights with
  | nil =>
    obtain rfl := List.eq_nil_of_length_eq_zero same.symm
    exact iff_of_true rfl (paired_of_forall₂ .nil)
  | cons left lefts ih =>
    rw [matchAll]
    cases taken : takeFirst (accepts left) rights with
    | none =>
      have refused := takeFirst_eq_none_iff.mp taken
      refine iff_of_false Bool.false_ne_true fun paired => ?_
      obtain ⟨right, member, accepted⟩ := paired.exists_right List.mem_cons_self
      rw [refused right member] at accepted
      contradiction
    | some rest =>
      obtain ⟨front, hit, back, rfl, rfl, accepted, -⟩ := split_of_takeFirst taken
      have inside {right : β} (member : right ∈ hit :: (front ++ back)) :
          right ∈ front ++ hit :: back := List.perm_middle.symm.subset member
      have shorter : lefts.length = (front ++ back).length := by
        simp only [List.length_append, List.length_cons] at same ⊢
        omega
      dsimp only
      rw [ih shorter ?_]
      · constructor
        · rintro ⟨arranged, arranges, each⟩
          exact ⟨hit :: arranged, (List.Perm.cons hit arranges).trans List.perm_middle.symm,
            .cons accepted each⟩
        -- Another one may be paired with the hit. By the exchange it can have what the first one
        -- was paired with, and the rest stays paired.
        · rintro ⟨arranged, arranges, each⟩
          refine exists_rest_of_forall₂ each (List.Perm.trans arranges List.perm_middle) ?_
          intro other member right known first second
          exact exchange left List.mem_cons_self other (List.mem_cons_of_mem _ member) hit
            (inside List.mem_cons_self) right (inside known) accepted first second
      · intro first inFirst other inOther right inRight last inLast
        exact exchange first (List.mem_cons_of_mem _ inFirst) other (List.mem_cons_of_mem _ inOther)
          right (inside (List.mem_cons_of_mem _ inRight)) last
          (inside (List.mem_cons_of_mem _ inLast))

theorem takeFirst_map {γ : Type} (image : γ → α) (accepts : α → Bool) (list : List γ) :
    takeFirst accepts (list.map image)
      = (takeFirst (fun element => accepts (image element)) list).map (List.map image) := by
  induction list with
  | nil => rfl
  | cons head rest ih =>
    rw [List.map_cons, takeFirst, takeFirst, ih]
    split
    · rfl
    · rw [Option.map_map, Option.map_map]
      rfl

theorem matchAll_map {γ δ : Type} (image : γ → α) (other : δ → β) (accepts : α → β → Bool)
    (lefts : List γ) (rights : List δ) :
    matchAll accepts (lefts.map image) (rights.map other)
      = matchAll (fun left right => accepts (image left) (other right)) lefts rights := by
  induction lefts generalizing rights with
  | nil => rfl
  | cons left lefts ih =>
    rw [List.map_cons, matchAll, matchAll, takeFirst_map]
    cases takeFirst (fun right => accepts (image left) (other right)) rights with
    | none => rfl
    | some rest => exact ih rest

theorem matchAll_of_forall₂ {accepts : α → β → Bool} {lefts : List α} {rights : List β}
    (each : List.Forall₂ (fun left right => accepts left right = true) lefts rights) :
    matchAll accepts lefts rights = true := by
  induction each with
  | nil => rfl
  | cons pair _ ih =>
    rw [matchAll, takeFirst, if_pos pair]
    exact ih

end JsonTree
