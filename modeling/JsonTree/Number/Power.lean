/-! Powers of two and of ten, and the 64-bit ranges. -/

set_option autoImplicit false

namespace JsonTree

def twoTo (exponent : Nat) : Nat := Nat.pow 2 exponent

theorem twoTo_pos (exponent : Nat) : 0 < twoTo exponent := Nat.pow_pos (by decide)

theorem twoTo_add (first second : Nat) : twoTo (first + second) = twoTo first * twoTo second :=
  Nat.pow_add 2 first second

theorem twoTo_le {low high : Nat} (le : low ≤ high) : twoTo low ≤ twoTo high :=
  Nat.pow_le_pow_right (by decide) le

theorem twoTo_dvd {low high : Nat} (le : low ≤ high) : twoTo low ∣ twoTo high :=
  Nat.pow_dvd_pow 2 le

def tenTo (exponent : Nat) : Nat := Nat.pow 10 exponent

theorem tenTo_succ (exponent : Nat) : tenTo (exponent + 1) = tenTo exponent * 10 := rfl

theorem tenTo_pos (exponent : Nat) : 0 < tenTo exponent := Nat.pow_pos (by decide)

def leastInt64 : Int := -0x8000000000000000

def greatestInt64 : Int := 0x7fffffffffffffff

def greatestUInt64 : Int := 0xffffffffffffffff

end JsonTree
