import JsonTree.Pointer.Lookup
import JsonTree.Proofs.Digit

/-! Reference tokens and the places of an array: no place has two tokens. -/

set_option autoImplicit false

namespace JsonTree

namespace ArrayPlace

theorem ofDigits_eq_index {digits : List Digit} {place : Nat}
    (named : ofDigits digits = .ok (.index place)) :
    Digit.value digits = place ∧ (place : Int) ≤ greatestUInt64
      ∧ ∀ first more, digits = first :: more → first.val = 0 → more = [] := by
  unfold ofDigits at named
  split at named
  · contradiction
  · next canonical =>
    split at named
    · next bound =>
      obtain rfl := ArrayPlace.index.inj (Except.ok.inj named)
      refine ⟨rfl, bound, ?_⟩
      rintro first more rfl zero
      cases more with
      | nil => rfl
      | cons next others => simp [zero] at canonical
    · contradiction

theorem ofDigits_ofNat_eq (place : Nat) :
    ofDigits (Digit.ofNat place)
      = if (place : Int) ≤ greatestUInt64 then .ok (.index place) else .error .indexOutOfRange := by
  have canonical : ¬(1 < (Digit.ofNat place).length
      ∧ (Digit.ofNat place).head?.map Fin.val = some 0) := by
    rintro ⟨long, zero⟩
    cases digits : Digit.ofNat place with
    | nil => exact Digit.ofNat_ne_nil place digits
    | cons first more =>
      rw [digits] at long zero
      obtain rfl := Digit.leading_ofNat digits (Option.some.inj zero)
      simp at long
  rw [ofDigits, if_neg canonical, Digit.value_ofNat]

theorem ofDigits_ofNat {place : Nat} (bound : (place : Int) ≤ greatestUInt64) :
    ofDigits (Digit.ofNat place) = .ok (.index place) := by
  rw [ofDigits_ofNat_eq, if_pos bound]

theorem ofDigits_unspelled {digits : List Digit} (nonempty : digits ≠ [])
    (unspelled : ∀ place, digits ≠ Digit.ofNat place) : ofDigits digits = .error .pathNotFound := by
  obtain ⟨first, more, rfl⟩ := List.exists_cons_of_ne_nil nonempty
  unfold ofDigits
  split
  · rfl
  · next canonical =>
    refine absurd (Digit.ofNat_value_cons first more fun zero => ?_).symm (unspelled _)
    cases more with
    | nil => rfl
    | cons next others => simp [zero] at canonical

theorem ofToken_digits {token : String} {digits : List Digit}
    (spelled : token.toList = Digit.chars digits) (nonempty : digits ≠ []) :
    ofToken token = ofDigits digits := by
  cases digits with
  | nil => contradiction
  | cons first more =>
    have read := Digit.all?_chars nonempty
    have head : Digit.chars (first :: more) = first.toChar :: Digit.chars more := rfl
    unfold ofToken
    rw [spelled]
    split
    · next equal => exact absurd (List.cons.inj (head ▸ equal)).1 first.toChar_ne_minus
    · next equal => exact absurd (List.cons.inj (head ▸ equal)).1 first.toChar_ne_minus
    · rw [read]

theorem natText_toList (place : Nat) :
    (natText place).toList = Digit.chars (Digit.ofNat place) := String.toList_ofList ..

/-- Each place has one token, its number without leading zeros. -/
theorem ofToken_eq_index_iff {token : String} {place : Nat} :
    ofToken token = .ok (.index place)
      ↔ token = natText place ∧ (place : Int) ≤ greatestUInt64 := by
  constructor
  · intro named
    have read := named
    unfold ofToken at read
    split at read
    · cases read
    · cases read
    · split at read
      · next digits all =>
        obtain ⟨spelled, nonempty⟩ := Digit.eq_chars_of_all? all
        obtain ⟨value, bound, canonical⟩ := ofDigits_eq_index read
        refine ⟨String.ext ?_, bound⟩
        cases digits with
        | nil => contradiction
        | cons first more =>
          -- Without a zero too many, the digits are those of the number.
          have digits := Digit.ofNat_value_cons first more (canonical first more rfl)
          rw [natText, String.toList_ofList, natChars, ← value, digits, spelled]
      · cases read
  · rintro ⟨rfl, bound⟩
    rw [ofToken_digits (natText_toList place) (Digit.ofNat_ne_nil place), ofDigits_ofNat bound]

theorem ofToken_natText {place : Nat} (bound : (place : Int) ≤ greatestUInt64) :
    ofToken (natText place) = .ok (.index place) := ofToken_eq_index_iff.mpr ⟨rfl, bound⟩

theorem ofToken_eq_append {token : String} (named : ofToken token = .ok .append) :
    token = "-" := by
  unfold ofToken at named
  split at named
  · next minus => exact String.ext (minus.trans (by decide))
  · cases named
  · split at named
    · unfold ofDigits at named
      split at named
      · cases named
      · split at named <;> cases named
    · cases named

/-- A number that no index can hold is refused as out of range. -/
theorem ofToken_natText_beyond {place : Nat} (beyond : greatestUInt64 < place) :
    ofToken (natText place) = .error .indexOutOfRange := by
  rw [ofToken_digits (natText_toList place) (Digit.ofNat_ne_nil place), ofDigits_ofNat_eq,
    if_neg (Int.not_le.mpr beyond)]

theorem ofToken_negative {digits : List Digit} (nonempty : digits ≠ []) :
    ofToken (String.ofList ('-' :: Digit.chars digits)) = .error .indexOutOfRange := by
  unfold ofToken
  rw [String.toList_ofList]
  split
  · next alone => exact absurd (List.map_eq_nil_iff.mp (List.cons.inj alone).2) nonempty
  · next rest _ same =>
    obtain rfl := (List.cons.inj same).2
    rw [Digit.all?_chars nonempty]
    rfl
  · next other => exact absurd rfl (other _)

theorem ofToken_unplaced {token : String} (noAppend : token ≠ "-")
    (noIndex : ∀ place, token ≠ natText place)
    (noNegative : ∀ digits, digits ≠ [] → token ≠ String.ofList ('-' :: Digit.chars digits)) :
    ofToken token = .error .pathNotFound := by
  unfold ofToken
  split
  · next alone => exact absurd (String.ext (alone.trans (by decide))) noAppend
  · next rest _ front =>
    cases read : Digit.all? rest with
    | none => rfl
    | some digits =>
      obtain ⟨rfl, nonempty⟩ := Digit.eq_chars_of_all? read
      refine absurd (String.ext ?_) (noNegative digits nonempty)
      rw [front, String.toList_ofList]
  · cases read : Digit.all? token.toList with
    | none => rfl
    | some digits =>
      obtain ⟨spelled, nonempty⟩ := Digit.eq_chars_of_all? read
      refine ofDigits_unspelled nonempty fun place same => noIndex place (String.ext ?_)
      rw [spelled, same, natText_toList]

end ArrayPlace

theorem existingIndex_eq_ok_iff {token : String} {length index : Nat} :
    existingIndex token length = .ok index
      ↔ ArrayPlace.ofToken token = .ok (.index index) ∧ index < length := by
  unfold existingIndex
  cases ArrayPlace.ofToken token with
  | error error => simp
  | ok place =>
    cases place with
    | append => simp
    | index other =>
      simp only [Except.ok.injEq, ArrayPlace.index.injEq]
      split
      · next inside =>
        rw [Except.ok.injEq]
        exact ⟨fun same => ⟨same, same ▸ inside⟩, fun both => both.1⟩
      · next outside =>
        constructor
        · intro refused
          contradiction
        · rintro ⟨rfl, inside⟩
          exact absurd inside outside

theorem existingIndex_inj {first second : String} {length index : Nat}
    (one : existingIndex first length = .ok index)
    (other : existingIndex second length = .ok index) : first = second := by
  have firstSpelled := (existingIndex_eq_ok_iff.mp one).1
  have secondSpelled := (existingIndex_eq_ok_iff.mp other).1
  rw [ArrayPlace.ofToken_eq_index_iff] at firstSpelled secondSpelled
  exact firstSpelled.1.trans secondSpelled.1.symm

namespace Value

theorem child_array_natText {items : List Value} {place : Nat}
    (bound : (place : Int) ≤ greatestUInt64) :
    (array items).child (natText place) = match items[place]? with
      | some item => .ok item
      | none => .error .indexOutOfRange := by
  simp only [child, existingIndex, ArrayPlace.ofToken_natText bound]
  by_cases inside : place < items.length
  · simp [inside]
  · simp [inside]

theorem child_array_unplaced {token : String}
    (unplaced : ∀ place, ArrayPlace.ofToken token ≠ .ok (.index place))
    (items others : List Value) : (array items).child token = (array others).child token := by
  simp only [child, existingIndex]
  cases named : ArrayPlace.ofToken token with
  | error error => rfl
  | ok place =>
    cases place with
    | append => rfl
    | index place => exact absurd named (unplaced place)

end Value

end JsonTree
