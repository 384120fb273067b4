import JsonTree.Proofs.Pointer.ArrayPlace

/-! What a write at one place leaves as it was.

Two pointers that part from each other lead to different children, because no child has
two tokens. A write at one of them is therefore not seen at the other.
-/

set_option autoImplicit false

namespace JsonTree.Value

theorem get_cons (value : Value) (token : String) (rest : List String) :
    value.get (token :: rest) = value.child token >>= fun inner => inner.get rest := rfl

theorem get_cons_congr {value other : Value} {token place : String}
    (same : value.child token = other.child place) (rest : List String) :
    value.get (token :: rest) = other.get (place :: rest) := by
  rw [get_cons, get_cons, same]

theorem get_append_of_ok {value inner : Value} {front : List String}
    (found : value.get front = .ok inner) (rest : List String) :
    value.get (front ++ rest) = inner.get rest := by
  rw [get_append, found]
  rfl

theorem get_cons_eq_ok {value found : Value} {token : String} {rest : List String}
    (read : value.get (token :: rest) = .ok found) :
    ∃ inner, value.child token = .ok inner ∧ inner.get rest = .ok found := by
  rw [get_cons] at read
  cases step : value.child token with
  | error error => rw [step] at read; contradiction
  | ok inner => rw [step] at read; exact ⟨inner, rfl, read⟩

theorem get_append_eq_ok {value found : Value} {front rest : List String}
    (read : value.get (front ++ rest) = .ok found) :
    ∃ inner, value.get front = .ok inner ∧ inner.get rest = .ok found := by
  rw [get_append] at read
  cases step : value.get front with
  | error error => rw [step] at read; contradiction
  | ok inner => rw [step] at read; exact ⟨inner, rfl, read⟩

theorem child_setChild_of_ne {value old : Value} {token other : String}
    (found : value.child token = .ok old) (differ : other ≠ token) (new : Value) :
    (value.setChild token new).child other = value.child other := by
  cases value with
  | object members =>
    simp only [child] at found
    split at found
    · next hit =>
      simp only [setChild, hit, Option.isSome_some, if_true, child,
        Members.get?_put_of_ne (Ne.symm differ)]
    · contradiction
  | array items =>
    simp only [child] at found
    split at found
    · next index place =>
      simp only [setChild, place, child, List.length_set]
      cases elsewhere : existingIndex other items.length with
      | error error => rfl
      | ok reached =>
        -- One place has one token, so different tokens name different places.
        have apart : index ≠ reached := by
          rintro rfl
          exact differ (existingIndex_inj elsewhere place)
        simp only [List.getElem?_set_ne apart]
    · contradiction
  | _ => contradiction

theorem set_cons {value inner : Value} {token : String} (step : value.child token = .ok inner)
    (rest : List String) (new : Value) :
    value.set (token :: rest) new = value.setChild token (inner.set rest new) := by
  rw [set, step]

/-- Above a written place the old value is read, written at the rest of the way. -/
theorem get_set_above {value inner old : Value} {front back : List String}
    (found : value.get front = .ok inner) (below : inner.get back = .ok old) (new : Value) :
    (value.set (front ++ back) new).get front = .ok (inner.set back new) := by
  induction front generalizing value with
  | nil =>
    obtain rfl := Except.ok.inj found
    rfl
  | cons token rest ih =>
    obtain ⟨child, step, further⟩ := get_cons_eq_ok found
    rw [List.cons_append, set_cons step, get_cons, child_setChild step]
    exact ih further

/-- A pointer that parts from the way to a written place reads what it read before. -/
theorem get_set_aside {value old : Value} {front back : List String} {token other : String}
    (found : value.get (front ++ token :: back) = .ok old) (differ : other ≠ token) (new : Value)
    (rest : List String) :
    (value.set (front ++ token :: back) new).get (front ++ other :: rest)
      = value.get (front ++ other :: rest) := by
  induction front generalizing value with
  | nil =>
    obtain ⟨child, step, -⟩ := get_cons_eq_ok found
    rw [List.nil_append, set_cons step]
    exact get_cons_congr (child_setChild_of_ne step differ _) rest
  | cons first front ih =>
    obtain ⟨child, step, further⟩ := get_cons_eq_ok found
    rw [List.cons_append, List.cons_append, set_cons step, get_cons, get_cons,
      child_setChild step, step]
    exact ih further

end JsonTree.Value
