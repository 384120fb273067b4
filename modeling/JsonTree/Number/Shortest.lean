import JsonTree.Number.Binary64

/-! The shortest decimal that reads back as a given floating-point number.

The decimals that read back form an interval around the number. The search goes from
coarse decimal grids to fine ones and tries the two neighbours of the number on each,
so the first grid with a hit has the fewest digits.
-/

set_option autoImplicit false

namespace JsonTree.Binary64

/-- An interval of decimals and the number inside it, all multiplied by one factor.
The ends belong to it when `closed`. -/
structure Window where
  low : Nat
  value : Nat
  high : Nat
  closed : Bool

/-- Grids are `10 ^ (index - offset)`; the finest is below every interval's width. -/
def gridOffset : Nat := 340

/-- The decimals that read back as `units`, scaled by `2 ^ 1076 × 10 ^ gridOffset`. Below
a power of two the neighbour is half as far away. The ends round to an even count. -/
def Window.ofUnits (units : Nat) : Window :=
  let step := spacing units
  let below := if units = twoTo 52 * step ∧ 1 < step then step else 2 * step
  ⟨(4 * units - below) * tenTo gridOffset, 4 * units * tenTo gridOffset,
    (4 * units + 2 * step) * tenTo gridOffset, units / step % 2 == 0⟩

def Window.holds (window : Window) (point : Nat) : Bool :=
  if window.closed then window.low ≤ point && point ≤ window.high
  else window.low < point && point < window.high

/-- The multiple of `grid` that lies in the window next to its value, if there is
one. Of two equally near ones the larger is taken. -/
def Window.hit? (window : Window) (grid : Nat) : Option Nat :=
  let below := window.value / grid
  let remainder := window.value % grid
  match window.holds (below * grid), window.holds ((below + 1) * grid) with
  | true, true => some (if 2 * remainder < grid then below else below + 1)
  | true, false => some below
  | false, true => some (below + 1)
  | false, false => none

def Window.search (window : Window) : Nat → Nat × Nat
  | 0 => (window.value / twoTo 1076, 0)
  | index + 1 =>
    match window.hit? (tenTo (index + 1) * twoTo 1076) with
    | some multiple => (multiple, index + 1)
    | none => window.search index

-- The search starts too coarse: on the grid `10 ^ 310` the neighbours of a finite number
-- are zero and a number beyond the range, and neither reads back as it.

/-- The shortest decimal `coefficient × 10 ^ exponent` that reads back as `units`. -/
def shortest (units : Nat) : Nat × Int :=
  let (coefficient, index) := (Window.ofUnits units).search (gridOffset + 310)
  (coefficient, (index : Int) - gridOffset)

end JsonTree.Binary64

namespace JsonTree.Number

def paddedDigits (count n : Nat) : List Digit :=
  match count with
  | 0 => []
  | count + 1 => paddedDigits count (n / 10) ++ [⟨n % 10, Nat.mod_lt _ (by decide)⟩]

def positional (negative : Bool) (coefficient : Nat) (exponent : Int) : Number :=
  if 0 ≤ exponent then ⟨negative, coefficient * tenTo exponent.toNat, [], none⟩
  else
    let places := (-exponent).toNat
    ⟨negative, coefficient / tenTo places, paddedDigits places coefficient, none⟩

/-- The shortest literal of a finite number, never with an exponent. Zero keeps its
sign; infinities and what is not a number have no literal. -/
def ofBinary64? : Binary64 → Option Number
  | .finite negative units =>
    if units = 0 then some ⟨negative, 0, [], none⟩
    else some (positional negative (Binary64.shortest units).1 (Binary64.shortest units).2)
  | _ => none

end JsonTree.Number
