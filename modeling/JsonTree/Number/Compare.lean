import JsonTree.Number.Binary64

/-! Equality and order of numbers by value.

Equality looks at ever wider classes: integers of 64 bits, decimals that the
precision holds, and then nearest floating-point numbers, where two that differ by no
more than the tolerance count as one. Where one side is beyond the floating-point
range the normal forms decide. The order never goes through floating point.
-/

set_option autoImplicit false

namespace JsonTree.Number

-- A class decides only when both sides belong to it. An integer beside a fraction goes to
-- the next class, and so does any pair of which one side needs more digits.
def equals (left right : Number) : Bool :=
  match left.wideInteger?, right.wideInteger? with
  | some first, some second => first == second
  | _, _ =>
    if left.decimal.fits && right.decimal.fits then left.decimal == right.decimal
    else
      match left.nearest, right.nearest with
      | .finite leftNegative leftUnits, .finite rightNegative rightUnits =>
        Binary64.near (Binary64.signedUnits leftNegative leftUnits)
          (Binary64.signedUnits rightNegative rightUnits)
      | _, _ => left.decimal == right.decimal

def order (left right : Number) : Ordering :=
  match left.wideInteger?, right.wideInteger? with
  | some first, some second => compare first second
  | _, _ => compare left.decimal right.decimal

end JsonTree.Number
