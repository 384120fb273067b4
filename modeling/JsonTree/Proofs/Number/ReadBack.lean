import JsonTree.Number.Shortest
import JsonTree.Proofs.Number.Nearest

/-! Printed floating-point numbers read back.

Every finite number is a count of steps that 53 bits hold, and the decimals in its window are
those that rounding takes to it: they lie within half a step of it, and just below a power of
two, where the steps are half as long, within half of such a step. The search ends in the
window, on its finest grid at the latest, and writing a decimal out leaves its value as it is.
-/

set_option autoImplicit false

namespace JsonTree

namespace Binary64

/-- A quotient within a half of a whole number is rounded to it; a half goes to the even one. -/
theorem roundDiv_eq {numerator denominator quotient : Nat} (positive : 0 < denominator)
    (lower : 2 * (quotient * denominator) ≤ 2 * numerator + denominator)
    (upper : 2 * numerator ≤ 2 * (quotient * denominator) + denominator)
    (ties : quotient % 2 = 0
      ∨ 2 * (quotient * denominator) < 2 * numerator + denominator
        ∧ 2 * numerator < 2 * (quotient * denominator) + denominator) :
    roundDiv numerator denominator = quotient := by
  have split : numerator / denominator * denominator + numerator % denominator = numerator :=
    Nat.div_add_mod' numerator denominator
  have small : numerator % denominator < denominator := Nat.mod_lt numerator positive
  have floor : numerator / denominator ≤ quotient := by
    by_contra above
    have beyond := Nat.mul_le_mul_right denominator (Nat.lt_of_not_le above)
    rw [Nat.succ_mul] at beyond
    omega
  have ceiling : quotient ≤ numerator / denominator + 1 := by
    by_contra above
    have beyond := Nat.mul_le_mul_right denominator (Nat.lt_of_not_le above)
    rw [Nat.succ_mul, Nat.succ_mul] at beyond
    omega
  unfold roundDiv
  dsimp only
  -- The quotient is the floor or one more, and the remainder tells which is nearer.
  rcases Nat.eq_or_lt_of_le floor with same | less
  · subst same
    split
    · rfl
    · split <;> omega
  · obtain rfl : quotient = numerator / denominator + 1 := by omega
    rw [Nat.add_mul] at *
    split
    · omega
    · split <;> omega

theorem spacing_eq {units exponent : Nat} (lower : exponent = 0 ∨ twoTo (52 + exponent) ≤ units)
    (upper : units < twoTo (53 + exponent)) : spacing units = twoTo exponent := by
  unfold spacing
  congr 1
  by_cases zero : units = 0
  · subst zero
    rcases lower with rfl | reached
    · rfl
    · exact absurd (twoTo_pos (52 + exponent)) (Nat.not_lt.mpr reached)
  · have most := (Nat.log2_lt zero).mpr upper
    rcases lower with rfl | reached
    · omega
    · have least := (Nat.le_log2 zero).mpr reached
      omega

/-- How many steps `2 ^ exponent` a finite number counts. The count has 53 bits, and the first of
them is missing only where the steps are single units. -/
structure Representable (count exponent : Nat) : Prop where
  bits : count < twoTo 53
  leading : exponent = 0 ∨ twoTo 52 ≤ count
  range : exponent ≤ 2045

theorem representable_of_ofBits {bits units : Nat} {negative : Bool}
    (finite : ofBits bits = .finite negative units) :
    ∃ count exponent, Representable count exponent ∧ units = count * twoTo exponent := by
  have fraction : bits % twoTo 52 < twoTo 52 := Nat.mod_lt _ (twoTo_pos 52)
  have double : twoTo 53 = 2 * twoTo 52 := by decide +kernel
  have range : bits / twoTo 52 % 2048 < 2048 := Nat.mod_lt _ (by decide)
  unfold ofBits at finite
  dsimp only at finite
  split at finite
  · split at finite <;> contradiction
  · split at finite
    · obtain ⟨-, rfl⟩ := Binary64.finite.inj finite
      exact ⟨_, 0, ⟨by omega, .inl rfl, by decide⟩, (Nat.mul_one _).symm⟩
    · obtain ⟨-, rfl⟩ := Binary64.finite.inj finite
      exact ⟨_, _, ⟨by omega, .inr (Nat.le_add_right _ _), by omega⟩, rfl⟩

section

variable {count exponent point scale : Nat}

theorem Representable.lt_limit (representable : Representable count exponent) :
    count * twoTo exponent < limit := by
  calc count * twoTo exponent
      < twoTo 53 * twoTo exponent :=
        Nat.mul_lt_mul_of_pos_right representable.bits (twoTo_pos exponent)
    _ ≤ twoTo 53 * twoTo 2045 := Nat.mul_le_mul_left _ (twoTo_le representable.range)
    _ = limit := (twoTo_add 53 2045).symm

theorem Representable.spacing (representable : Representable count exponent) :
    spacing (count * twoTo exponent) = twoTo exponent := by
  refine spacing_eq (representable.leading.imp_right fun reached => ?_) ?_
  · exact twoTo_add 52 exponent ▸ Nat.mul_le_mul_right _ reached
  · exact twoTo_add 53 exponent ▸
      Nat.mul_lt_mul_of_pos_right representable.bits (twoTo_pos exponent)

theorem Window.holds_iff {window : Window} :
    window.holds point = true ↔ window.low ≤ point ∧ point ≤ window.high
      ∧ (window.closed = true ∨ window.low < point ∧ point < window.high) := by
  unfold holds
  cases window.closed
  · simp
    omega
  · simp

/-- The window of a number reaches half a step up and half a step down, from a power of two a
quarter of a step down. -/
theorem Window.ofUnits_eq (representable : Representable count exponent) :
    let value := count * twoTo exponent * (4 * tenTo gridOffset)
    let quarter := twoTo exponent * tenTo gridOffset
    Window.ofUnits (count * twoTo exponent)
      = ⟨value - (if count = twoTo 52 ∧ exponent ≠ 0 then quarter else 2 * quarter), value,
        value + 2 * quarter, count % 2 == 0⟩ := by
  intro value quarter
  have scaled : 4 * (count * twoTo exponent) * tenTo gridOffset = value := by
    simp only [value]
    ring
  have edge : (count * twoTo exponent = twoTo 52 * twoTo exponent ∧ 1 < twoTo exponent)
      ↔ (count = twoTo 52 ∧ exponent ≠ 0) :=
    and_congr (Nat.mul_left_inj (twoTo_pos exponent).ne') Nat.one_lt_two_pow_iff
  simp only [Window.ofUnits, representable.spacing, edge, Nat.sub_mul, Nat.add_mul, scaled, ite_mul,
    Nat.mul_assoc 2, Nat.mul_div_cancel count (twoTo_pos exponent), quarter]

/-- A point at most half a step away from a whole number of steps is rounded to that, if these are
the steps in which numbers of its size are counted. -/
theorem roundUnits_eq (positive : 0 < scale)
    (least : exponent = 0 ∨ twoTo 52 * twoTo exponent * scale ≤ point)
    (most : point < twoTo 53 * twoTo exponent * scale)
    (lower : 2 * (count * twoTo exponent * scale) ≤ 2 * point + twoTo exponent * scale)
    (upper : 2 * point ≤ 2 * (count * twoTo exponent * scale) + twoTo exponent * scale)
    (ties : count % 2 = 0
      ∨ 2 * (count * twoTo exponent * scale) < 2 * point + twoTo exponent * scale
        ∧ 2 * point < 2 * (count * twoTo exponent * scale) + twoTo exponent * scale) :
    roundUnits point scale = count * twoTo exponent := by
  have spaced : Binary64.spacing (point / scale) = twoTo exponent := by
    rw [← twoTo_add] at least most
    exact spacing_eq (least.imp_right (Nat.le_div_iff_mul_le positive).mpr)
      ((Nat.div_lt_iff_lt_mul positive).mpr most)
  rw [Nat.mul_assoc count, Nat.mul_comm (twoTo exponent) scale] at lower upper ties
  unfold roundUnits
  dsimp only
  rw [spaced, roundDiv_eq (Nat.mul_pos positive (twoTo_pos exponent)) lower upper ties]

theorem roundUnits_below_power (positive : 0 < scale)
    (below : point < twoTo 52 * twoTo (exponent + 1) * scale)
    (low : 4 * (twoTo 52 * twoTo (exponent + 1) * scale)
      ≤ 4 * point + twoTo (exponent + 1) * scale) :
    roundUnits point scale = twoTo 52 * twoTo (exponent + 1) := by
  have half : twoTo (exponent + 1) = 2 * twoTo exponent := by rw [twoTo_add, Nat.mul_comm]; rfl
  have bits : twoTo 53 = 2 * twoTo 52 := by decide +kernel
  have same : twoTo 52 * twoTo (exponent + 1) = twoTo 53 * twoTo exponent := by
    rw [half, bits]; ring
  have double : twoTo 53 * twoTo exponent * scale = 2 * (twoTo 52 * twoTo exponent * scale) := by
    rw [bits]; ring
  have length : twoTo (exponent + 1) * scale = 2 * (twoTo exponent * scale) := by rw [half]; ring
  have reached : twoTo exponent * scale ≤ twoTo 52 * twoTo exponent * scale :=
    Nat.mul_le_mul_right _ (Nat.le_mul_of_pos_left _ (twoTo_pos 52))
  rw [same] at below low ⊢
  refine roundUnits_eq positive (.inr ?_) below ?_ ?_ (.inl (by decide +kernel)) <;> omega

/-- The points in the window of a number are rounded to it. -/
theorem roundUnits_of_holds (representable : Representable count exponent)
    (inside : (Window.ofUnits (count * twoTo exponent)).holds point = true) :
    roundUnits point (4 * tenTo gridOffset) = count * twoTo exponent := by
  have positive : 0 < 4 * tenTo gridOffset := Nat.mul_pos (by decide) (tenTo_pos gridOffset)
  have part : 0 < twoTo exponent * tenTo gridOffset :=
    Nat.mul_pos (twoTo_pos exponent) (tenTo_pos gridOffset)
  have step : twoTo exponent * (4 * tenTo gridOffset) = 4 * (twoTo exponent * tenTo gridOffset) :=
    Nat.mul_left_comm ..
  have scaled {first second : Nat} (le : first ≤ second) :
      first * twoTo exponent * (4 * tenTo gridOffset)
        ≤ second * twoTo exponent * (4 * tenTo gridOffset) :=
    Nat.mul_le_mul_right _ (Nat.mul_le_mul_right _ le)
  have next (first : Nat) : (first + 1) * twoTo exponent * (4 * tenTo gridOffset)
      = first * twoTo exponent * (4 * tenTo gridOffset)
        + 4 * (twoTo exponent * tenTo gridOffset) := by ring
  rw [Window.ofUnits_eq representable, Window.holds_iff] at inside
  dsimp only at inside
  obtain ⟨low, high, ties⟩ := inside
  obtain ⟨bits, leading, -⟩ := representable
  rw [beq_iff_eq] at ties
  rcases Nat.lt_or_ge point (count * twoTo exponent * (4 * tenTo gridOffset)) with below | above
  · split at low
    · next edge =>
      obtain ⟨rfl, wide⟩ := edge
      cases exponent with
      | zero => exact absurd rfl wide
      | succ exponent =>
        refine roundUnits_below_power positive below ?_
        omega
    · next regular =>
      rw [if_neg regular] at ties
      -- The count is not the least one with its bits, so half a step down the steps are the same.
      have least : exponent = 0
          ∨ twoTo 52 * twoTo exponent * (4 * tenTo gridOffset) ≤ point := by
        rw [or_iff_not_imp_left]
        intro wide
        have apart : count ≠ twoTo 52 := fun same => regular ⟨same, wide⟩
        have reached := scaled (Nat.lt_of_le_of_ne (leading.resolve_left wide) apart.symm)
        rw [Nat.succ_eq_add_one, next] at reached
        omega
      have most := Nat.lt_of_lt_of_le below (scaled (Nat.le_of_lt bits))
      refine roundUnits_eq positive least most ?_ ?_ ?_ <;> omega
  · have least := leading.imp_right fun reached => Nat.le_trans (scaled reached) above
    have most := scaled bits
    rw [Nat.succ_eq_add_one, next] at most
    refine roundUnits_eq positive least ?_ ?_ ?_ ?_ <;> omega

end

namespace Window

variable {window : Window} {grid multiple : Nat}

theorem holds_of_hit? (hit : window.hit? grid = some multiple) :
    window.holds (multiple * grid) = true := by
  unfold hit? at hit
  dsimp only at hit
  split at hit
  · next below above =>
    rw [← Option.some.inj hit]
    split
    · exact below
    · exact above
  · next below _ => exact Option.some.inj hit ▸ below
  · next _ above => exact Option.some.inj hit ▸ above
  · contradiction

theorem holds_floor (positive : 0 < grid) (low : window.low + grid ≤ window.value)
    (high : window.value < window.high) :
    window.holds (window.value / grid * grid) = true := by
  have split := Nat.div_add_mod' window.value grid
  have rest : window.value % grid < grid := Nat.mod_lt _ positive
  exact holds_iff.mpr ⟨by omega, by omega, .inr ⟨by omega, by omega⟩⟩

/-- What the search finds is in the window, if the finest grid has a multiple there. -/
theorem holds_search (finest : window.holds (window.value / twoTo 1076 * twoTo 1076) = true)
    (start : Nat) :
    window.holds ((window.search start).1 * (tenTo (window.search start).2 * twoTo 1076))
      = true := by
  induction start with
  | zero => rw [search, show tenTo 0 = 1 from rfl, Nat.one_mul]; exact finest
  | succ index ih =>
    unfold search
    split
    · next multiple hit => exact holds_of_hit? hit
    · exact ih

end Window

section

variable {count exponent : Nat}

theorem holds_finest {grid : Nat} (representable : Representable count exponent)
    (nonzero : count ≠ 0) (positive : 0 < grid) (fine : grid < tenTo gridOffset) :
    (Window.ofUnits (count * twoTo exponent)).holds
      ((Window.ofUnits (count * twoTo exponent)).value / grid * grid) = true := by
  have quarter : tenTo gridOffset ≤ twoTo exponent * tenTo gridOffset :=
    Nat.le_mul_of_pos_left _ (twoTo_pos exponent)
  have least : 4 * (twoTo exponent * tenTo gridOffset)
      ≤ count * twoTo exponent * (4 * tenTo gridOffset) := by
    rw [Nat.mul_left_comm 4]
    exact Nat.mul_le_mul_right _ (Nat.le_mul_of_pos_left _ (Nat.pos_of_ne_zero nonzero))
  rw [Window.ofUnits_eq representable]
  refine Window.holds_floor positive ?_ ?_
  · dsimp only
    split <;> omega
  · dsimp only
    omega

theorem holds_shortest (representable : Representable count exponent) (nonzero : count ≠ 0) :
    ∃ index : Nat, (shortest (count * twoTo exponent)).2 = (index : Int) - gridOffset
      ∧ (Window.ofUnits (count * twoTo exponent)).holds
        ((shortest (count * twoTo exponent)).1 * (tenTo index * twoTo 1076)) = true := by
  have fine : twoTo 1076 < tenTo gridOffset := by decide +kernel
  have finest := holds_finest representable nonzero (twoTo_pos 1076) fine
  unfold shortest
  exact ⟨_, rfl, Window.holds_search finest (gridOffset + 310)⟩

/-- A multiple of a grid is a decimal; as a point it is counted in quarters of a unit. -/
theorem decimal_of_grid {unit quarters : Nat} (factor : quarters = 4 * unit)
    (coefficient index : Nat) :
    (coefficient : ℚ) * 10 ^ ((index : Int) - gridOffset) * unit
      = (coefficient * (tenTo index * quarters) : Nat) / (4 * tenTo gridOffset : Nat) := by
  have fine : (tenTo gridOffset : ℚ) ≠ 0 := Nat.cast_ne_zero.mpr (tenTo_pos gridOffset).ne'
  rw [zpow_sub₀ (by norm_num), zpow_natCast, zpow_natCast, ← cast_tenTo, ← cast_tenTo, factor]
  push_cast
  field_simp

theorem ofScaled_shortest (negative : Bool) (representable : Representable count exponent)
    (nonzero : count ≠ 0) :
    ofScaled negative (shortest (count * twoTo exponent)).1 (shortest (count * twoTo exponent)).2
      = .finite negative (count * twoTo exponent) := by
  obtain ⟨index, place, inside⟩ := holds_shortest representable nonzero
  obtain ⟨numerator, denominator, positive, quotient, rounded⟩ :=
    ofScaled_eq negative (shortest (count * twoTo exponent)).1 (shortest (count * twoTo exponent)).2
  have window : 0 < 4 * tenTo gridOffset := Nat.mul_pos (by decide) (tenTo_pos gridOffset)
  have quarters : twoTo 1076 = 4 * twoTo 1074 := by decide +kernel
  rw [place, decimal_of_grid quarters] at quotient
  rw [rounded, roundUnits_congr positive window quotient, roundUnits_of_holds representable inside,
    ofUnits, if_pos representable.lt_limit]

end

end Binary64

namespace Number

@[simp] theorem length_paddedDigits (count n : Nat) : (paddedDigits count n).length = count := by
  induction count generalizing n with
  | zero => rfl
  | succ count ih => rw [paddedDigits, List.length_append, ih, List.length_singleton]

theorem value_paddedDigits (count n : Nat) :
    Digit.value (paddedDigits count n) = n % tenTo count := by
  induction count generalizing n with
  | zero => exact (Nat.mod_one n).symm
  | succ count ih =>
    rw [paddedDigits, Digit.value_append_singleton, ih, tenTo_succ, Nat.mul_comm (tenTo count),
      Nat.mod_mul, Nat.add_comm]

theorem value_positional (negative : Bool) (coefficient : Nat) (exponent : Int) :
    (Digit.value (positional negative coefficient exponent).digits : ℚ)
        * 10 ^ (positional negative coefficient exponent).place
      = coefficient * 10 ^ exponent := by
  unfold positional digits place writtenExponent
  split
  · next whole =>
    have power : ((exponent.toNat : Nat) : Int) = exponent := Int.toNat_of_nonneg whole
    simp only [List.append_nil, Digit.value_ofNat, List.length_nil]
    push_cast
    rw [cast_tenTo, ← zpow_natCast, power]
    simp
  · next below =>
    have places : (((-exponent).toNat : Nat) : Int) = -exponent := Int.toNat_of_nonneg (by omega)
    have split := Nat.div_add_mod' coefficient (tenTo (-exponent).toNat)
    simp only [Digit.value_append, Digit.value_ofNat, value_paddedDigits, length_paddedDigits,
      split, places]
    rw [zero_sub, neg_neg]

theorem nearest_positional (negative : Bool) (coefficient : Nat) (exponent : Int) :
    (positional negative coefficient exponent).nearest
      = .ofScaled negative coefficient exponent := by
  have sign : (positional negative coefficient exponent).negative = negative := by
    unfold positional
    split <;> rfl
  have read : (positional negative coefficient exponent).nearest
      = .ofDigits (positional negative coefficient exponent).negative
        (positional negative coefficient exponent).digits
        (positional negative coefficient exponent).place := rfl
  rw [read, sign, Binary64.ofDigits_eq,
    Binary64.ofScaled_congr negative (value_positional negative coefficient exponent)]

/-- The literal that is printed of a floating-point number reads back as it. -/
theorem nearest_of_ofBinary64? {bits : Nat} {number : Number}
    (printed : ofBinary64? (.ofBits bits) = some number) : number.nearest = .ofBits bits := by
  cases float : Binary64.ofBits bits with
  | finite negative units =>
    obtain ⟨count, exponent, representable, rfl⟩ := Binary64.representable_of_ofBits float
    rw [float, ofBinary64?] at printed
    split at printed
    · next zero =>
      rw [← Option.some.inj printed, zero]
      cases negative <;> decide +kernel
    · next nonzero =>
      have counted : count ≠ 0 := fun none => nonzero (by rw [none, Nat.zero_mul])
      rw [← Option.some.inj printed, nearest_positional,
        Binary64.ofScaled_shortest negative representable counted]
  | infinite negative => rw [float] at printed; contradiction
  | notANumber => rw [float] at printed; contradiction

end Number

end JsonTree
