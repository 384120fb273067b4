/-! The letters of ASCII in their two cases; no other character has a case. -/

set_option autoImplicit false

namespace JsonTree

theorem toNat_toLower (c : Char) :
    c.toLower.toNat = if 65 ≤ c.toNat ∧ c.toNat ≤ 90 then c.toNat + 32 else c.toNat := by
  unfold Char.toLower
  split
  · next upper =>
    have bounds : 65 ≤ c.val.toNat ∧ c.val.toNat ≤ 90 := upper
    have moved : (c.val + 32).toNat = c.val.toNat + 32 := by
      rw [UInt32.toNat_add]
      show (c.val.toNat + 32) % 4294967296 = _
      omega
    exact moved.trans (if_pos bounds).symm
  · next other => exact (if_neg other).symm

-- The letters are moved down by adding what is missing from the size of a word.
theorem toNat_toUpper (c : Char) :
    c.toUpper.toNat = if 97 ≤ c.toNat ∧ c.toNat ≤ 122 then c.toNat - 32 else c.toNat := by
  unfold Char.toUpper
  split
  · next lower =>
    have bounds : 97 ≤ c.val.toNat ∧ c.val.toNat ≤ 122 := lower
    have moved : (c.val + 4294967264).toNat = c.val.toNat - 32 := by
      rw [UInt32.toNat_add]
      show (c.val.toNat + 4294967264) % 4294967296 = _
      omega
    exact moved.trans (if_pos bounds).symm
  · next other => exact (if_neg other).symm

theorem toLower_eq_iff {left right : Char} :
    left.toLower = right.toLower ↔ left.toUpper = right.toUpper := by
  rw [← Char.toNat_inj, ← Char.toNat_inj, toNat_toLower, toNat_toLower, toNat_toUpper,
    toNat_toUpper]
  split <;> split <;> split <;> split <;> omega

def SameButCase (left right : String) : Prop :=
  left.toList.map Char.toUpper = right.toList.map Char.toUpper

instance (left right : String) : Decidable (SameButCase left right) :=
  inferInstanceAs (Decidable (left.toList.map Char.toUpper = right.toList.map Char.toUpper))

theorem sameButCase_iff {left right : String} :
    SameButCase left right ↔ left.toList.map Char.toLower = right.toList.map Char.toLower := by
  unfold SameButCase
  generalize left.toList = first
  generalize right.toList = second
  induction first generalizing second with
  | nil => cases second <;> simp
  | cons c rest ih =>
    cases second with
    | nil => simp
    | cons d others => simp only [List.map_cons, List.cons.injEq, toLower_eq_iff, ih]

end JsonTree
