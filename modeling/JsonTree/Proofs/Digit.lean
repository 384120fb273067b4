import JsonTree.Digit
import JsonTree.Number.Power

/-! Digit strings of natural numbers: how they begin, reading them back, and the numbers
that they denote by their parts. -/

set_option autoImplicit false

namespace JsonTree

theorem Digit.leading_ofNat {n : Nat} {first : Digit} {more : List Digit}
    (digits : ofNat n = first :: more) (zero : first.val = 0) : more = [] := by
  induction n using Nat.strongRecOn generalizing more with
  | _ n ih =>
    by_cases small : n < 10
    · rw [ofNat_small small] at digits
      exact (List.cons.inj digits).2.symm
    · have large := ofNat_large (Nat.not_lt.mp small)
      cases front : ofNat (n / 10) with
      | nil => exact absurd front (ofNat_ne_nil _)
      | cons head tail =>
        -- A zero in front is all of the quotient, which is not zero.
        rw [front, digits, List.cons_append] at large
        obtain ⟨rfl, -⟩ := List.cons.inj large
        obtain rfl := ih (n / 10) (by omega) front
        have quotient := value_ofNat (n / 10)
        rw [front] at quotient
        simp [value, zero] at quotient
        omega

theorem Digit.foldl_value (total : Nat) (digits : List Digit) :
    digits.foldl (fun total digit => 10 * total + digit.val) total
      = total * tenTo digits.length + value digits := by
  induction digits generalizing total with
  | nil => simp [tenTo]
  | cons digit digits ih =>
    rw [value, List.foldl_cons, List.foldl_cons, ih, ih, List.length_cons, tenTo_succ]
    rw [Nat.add_mul, Nat.add_mul, Nat.mul_zero, Nat.zero_mul, Nat.zero_add, Nat.add_assoc,
      Nat.mul_comm 10 total, Nat.mul_assoc, Nat.mul_comm 10]

theorem Digit.value_append (front back : List Digit) :
    value (front ++ back) = value front * tenTo back.length + value back := by
  rw [value, List.foldl_append, foldl_value]
  rfl

theorem Digit.value_cons (first : Digit) (more : List Digit) :
    value (first :: more) = first.val * tenTo more.length + value more := by
  rw [value, List.foldl_cons, foldl_value, Nat.mul_zero, Nat.zero_add]

theorem Digit.value_lt (digits : List Digit) : value digits < tenTo digits.length := by
  induction digits with
  | nil => decide
  | cons first more ih =>
    have step : (first.val + 1) * tenTo more.length ≤ 10 * tenTo more.length :=
      Nat.mul_le_mul_right _ first.isLt
    rw [value_cons, List.length_cons, tenTo_succ]
    rw [Nat.add_mul, Nat.one_mul] at step
    omega

theorem Digit.le_value {first : Digit} (positive : first ≠ 0) (more : List Digit) :
    tenTo more.length ≤ value (first :: more) := by
  have least : 1 ≤ first.val :=
    Nat.one_le_iff_ne_zero.mpr fun zero => positive (Fin.ext zero)
  have step : 1 * tenTo more.length ≤ first.val * tenTo more.length :=
    Nat.mul_le_mul_right _ least
  rw [value_cons]
  omega

theorem Digit.value_replicate_zero (count : Nat) : value (List.replicate count 0) = 0 := by
  induction count with
  | zero => rfl
  | succ count ih => rw [List.replicate_succ, value_cons, ih]; simp

theorem Digit.all?_chars {digits : List Digit} (nonempty : digits ≠ []) :
    all? (chars digits) = some digits := by
  have whole := scan_chars digits [] (by simp)
  rw [List.append_nil] at whole
  cases digits with
  | nil => contradiction
  | cons first more => simp [all?, whole]

theorem Digit.eq_chars_of_all? {text : List Char} {digits : List Digit}
    (read : all? text = some digits) : text = chars digits ∧ digits ≠ [] := by
  have whole := chars_scan text
  unfold all? at read
  split at read
  · next first more scanned =>
    obtain rfl := Option.some.inj read
    rw [scanned, List.append_nil] at whole
    exact ⟨whole.symm, List.cons_ne_nil _ _⟩
  · contradiction

theorem Digit.forall_mem_chars {property : Char → Prop}
    (every : ∀ digit : Digit, property digit.toChar)
    (digits : List Digit) : ∀ c ∈ chars digits, property c :=
  List.forall_mem_map.mpr fun digit _ => every digit

theorem Digit.toChar_ne_minus (digit : Digit) : digit.toChar ≠ '-' := by
  revert digit
  decide

end JsonTree
