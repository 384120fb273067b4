import Mathlib.Data.List.Induction
import JsonTree.Value.Basic

/-! Members around one key: where it stands, and what the operations on it leave alone. -/

set_option autoImplicit false

namespace JsonTree.Members

@[simp] theorem keys_nil : keys [] = [] := rfl

@[simp] theorem keys_cons (member : String × Value) (rest : Members) :
    keys (member :: rest) = member.1 :: keys rest := rfl

@[simp] theorem keys_append (front back : Members) :
    keys (front ++ back) = keys front ++ keys back := List.map_append

theorem get?_append (key : String) (front back : Members) :
    get? key (front ++ back) = (get? key front).or (get? key back) := by
  induction front with
  | nil => rfl
  | cons member rest ih =>
    obtain ⟨name, value⟩ := member
    by_cases same : name = key
    · simp [get?, same]
    · simp [get?, same, ih]

theorem get?_append_of_not_mem {key : String} {front : Members} (absent : key ∉ keys front)
    (back : Members) : get? key (front ++ back) = get? key back := by
  rw [get?_append, get?_eq_none_iff.mpr absent, Option.none_or]

theorem get?_cons_self (key : String) (value : Value) (rest : Members) :
    get? key ((key, value) :: rest) = some value := by
  simp [get?]

theorem get?_cons_of_ne {key other : String} (differ : other ≠ key) (value : Value)
    (rest : Members) : get? other ((key, value) :: rest) = get? other rest := by
  simp [get?, Ne.symm differ]

theorem get?_append_cons_of_ne {key other : String} (differ : other ≠ key) (value : Value)
    (front back : Members) :
    get? other (front ++ (key, value) :: back) = get? other (front ++ back) := by
  rw [get?_append, get?_append, get?_cons_of_ne differ]

theorem split_of_get? {key : String} {value : Value} {members : Members}
    (found : get? key members = some value) :
    ∃ front back, members = front ++ (key, value) :: back ∧ key ∉ keys front := by
  induction members with
  | nil => contradiction
  | cons member rest ih =>
    obtain ⟨name, old⟩ := member
    by_cases same : name = key
    · simp only [get?, if_pos same, Option.some.injEq] at found
      exact ⟨[], rest, by rw [same, found, List.nil_append], by simp⟩
    · simp only [get?, if_neg same] at found
      obtain ⟨front, back, rfl, absent⟩ := ih found
      refine ⟨(name, old) :: front, back, rfl, ?_⟩
      rw [keys_cons, List.mem_cons, not_or]
      exact ⟨Ne.symm same, absent⟩

theorem mem_of_get? {key : String} {value : Value} {members : Members}
    (found : get? key members = some value) : (key, value) ∈ members := by
  obtain ⟨front, back, rfl, -⟩ := split_of_get? found
  exact List.mem_append_right _ List.mem_cons_self

theorem get?_of_mem {key : String} {value : Value} {members : Members}
    (distinct : (keys members).Nodup) (member : (key, value) ∈ members) :
    get? key members = some value := by
  obtain ⟨front, back, rfl⟩ := List.append_of_mem member
  rw [keys_append, List.nodup_append] at distinct
  have absent : key ∉ keys front := fun earlier => distinct.2.2 key earlier key (by simp) rfl
  rw [get?_append_of_not_mem absent, get?_cons_self]

theorem put_split {key : String} {front : Members} (absent : key ∉ keys front) (old new : Value)
    (back : Members) :
    put key new (front ++ (key, old) :: back) = front ++ (key, new) :: back := by
  induction front with
  | nil => simp [put]
  | cons member rest ih =>
    rw [keys_cons, List.mem_cons, not_or] at absent
    rw [List.cons_append, put, if_neg (Ne.symm absent.1), ih absent.2, List.cons_append]

theorem put_of_not_mem {key : String} {members : Members} (absent : key ∉ keys members)
    (new : Value) : put key new members = members ++ [(key, new)] := by
  induction members with
  | nil => rfl
  | cons member rest ih =>
    rw [keys_cons, List.mem_cons, not_or] at absent
    rw [put, if_neg (Ne.symm absent.1), ih absent.2, List.cons_append]

theorem erase_split {key : String} {front : Members} (absent : key ∉ keys front) (old : Value)
    (back : Members) : erase key (front ++ (key, old) :: back) = front ++ back := by
  induction front with
  | nil => simp [erase]
  | cons member rest ih =>
    rw [keys_cons, List.mem_cons, not_or] at absent
    rw [List.cons_append, erase, if_neg (Ne.symm absent.1), ih absent.2, List.cons_append]

theorem keys_erase (key : String) (members : Members) :
    keys (erase key members) = (keys members).erase key := by
  induction members with
  | nil => rfl
  | cons member rest ih =>
    obtain ⟨name, value⟩ := member
    by_cases same : name = key
    · rw [erase, if_pos same, keys_cons, same, List.erase_cons_head]
    · have differ : ¬ (name == key) = true := by rwa [beq_iff_eq]
      rw [erase, if_neg same, keys_cons, keys_cons, List.erase_cons_tail differ, ih]

theorem get?_erase_of_ne {key other : String} (differ : other ≠ key) (members : Members) :
    get? other (erase key members) = get? other members := by
  induction members with
  | nil => rfl
  | cons member rest ih =>
    obtain ⟨name, value⟩ := member
    by_cases same : name = key
    · rw [erase, if_pos same, same, get?_cons_of_ne differ]
    · rw [erase, if_neg same, get?, get?, ih]

theorem get?_erase_self {key : String} {members : Members} (distinct : (keys members).Nodup) :
    get? key (erase key members) = none := by
  rw [get?_eq_none_iff, keys_erase]
  exact distinct.not_mem_erase

theorem isSome_get?_iff {key : String} {members : Members} :
    (get? key members).isSome ↔ key ∈ keys members := by
  rw [← not_iff_not, ← get?_eq_none_iff]
  simp

theorem mem_keys_put {key other : String} {value : Value} {members : Members}
    (held : key ∈ keys members) : key ∈ keys (put other value members) := by
  rw [keys_put]
  split
  · exact held
  · exact List.mem_append_left _ held

theorem put_comm {first second : String} {members : Members} (differ : first ≠ second)
    (firstHeld : first ∈ keys members) (secondHeld : second ∈ keys members)
    (left right : Value) :
    put first left (put second right members) = put second right (put first left members) := by
  induction members with
  | nil => simp at firstHeld
  | cons member rest ih =>
    obtain ⟨name, old⟩ := member
    by_cases atFirst : name = first
    · simp [put, atFirst, differ]
    · by_cases atSecond : name = second
      · simp [put, atSecond, Ne.symm differ]
      · have others : first ∈ keys rest ∧ second ∈ keys rest := by
          rw [keys_cons, List.mem_cons] at firstHeld secondHeld
          exact ⟨firstHeld.resolve_left (Ne.symm atFirst),
            secondHeld.resolve_left (Ne.symm atSecond)⟩
        simp only [put, if_neg atFirst, if_neg atSecond, ih others.1 others.2]

theorem mem_put {key : String} {value : Value} {members : Members} {member : String × Value}
    (inside : member ∈ put key value members) : member.2 = value ∨ member ∈ members := by
  induction members with
  | nil =>
    obtain rfl := List.mem_singleton.mp inside
    exact .inl rfl
  | cons head rest ih =>
    rw [put] at inside
    split at inside
    · rcases List.mem_cons.mp inside with rfl | later
      · exact .inl rfl
      · exact .inr (List.mem_cons_of_mem _ later)
    · rcases List.mem_cons.mp inside with rfl | later
      · exact .inr List.mem_cons_self
      · exact (ih later).imp_right (List.mem_cons_of_mem _)

-- Pairs are put in from the first to the last, so these go by induction from the end.

theorem ofPairs_concat (pairs : List (String × Value)) (pair : String × Value) :
    ofPairs (pairs ++ [pair]) = put pair.1 pair.2 (ofPairs pairs) := by
  rw [ofPairs, List.foldl_append]
  rfl

theorem ofPairs_of_nodup {pairs : Members} (distinct : (keys pairs).Nodup) :
    ofPairs pairs = pairs := by
  induction pairs using List.reverseRecOn with
  | nil => rfl
  | append_singleton pairs pair ih =>
    rw [keys_append, List.nodup_append] at distinct
    have absent : pair.1 ∉ keys pairs := fun earlier => distinct.2.2 _ earlier _ (by simp) rfl
    rw [ofPairs_concat, ih distinct.1, put_of_not_mem absent]

theorem head?_keys_ofPairs (pairs : List (String × Value)) :
    (keys (ofPairs pairs)).head? = (keys pairs).head? := by
  induction pairs using List.reverseRecOn with
  | nil => rfl
  | append_singleton pairs pair ih =>
    rw [ofPairs_concat, keys_put, keys_append, List.head?_append, ← ih]
    split
    · next known =>
      obtain ⟨first, more, spelled⟩ := List.exists_cons_of_ne_nil (List.ne_nil_of_mem known)
      rw [spelled]
      rfl
    · rw [List.head?_append]
      rfl

theorem mem_ofPairs {pairs : List (String × Value)} {member : String × Value}
    (inside : member ∈ ofPairs pairs) : ∃ pair ∈ pairs, pair.2 = member.2 := by
  induction pairs using List.reverseRecOn with
  | nil => contradiction
  | append_singleton pairs pair ih =>
    rw [ofPairs_concat] at inside
    rcases mem_put inside with last | earlier
    · exact ⟨pair, by simp, last.symm⟩
    · obtain ⟨pair, known, same⟩ := ih earlier
      exact ⟨pair, List.mem_append_left _ known, same⟩

end JsonTree.Members
