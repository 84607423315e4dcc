/-
The remainder of a division of doubles.

The quotient is cut off toward zero, so the remainder has the sign of the dividend.  It is
always a double itself, and it is computed in exact arithmetic.
-/
import Stencil.Decimal.Shortest

namespace Stencil.Decimal

/-- A finite magnitude. -/
def Binary.ofFloat (x : Float) : Binary := .ofMagnitudeBits (x.toBits.toNat % signBit)

/-- The remainder of one magnitude by another, which is not zero. -/
def Binary.remainder (x y : Binary) : Float :=
  let low := min x.exponent y.exponent
  let dividend := x.significand * Nat.pow 2 (x.exponent - low).toNat
  let divisor := y.significand * Nat.pow 2 (y.exponent - low).toNat
  Float.scaleB (Float.ofNat (dividend % divisor)) low

/-- The remainder of `x` by `y`. -/
def remainder (x y : Float) : Float :=
  if !x.isFinite || y.isNaN || y == 0 then 0.0 / 0.0
  else if !y.isFinite then x
  else
    let r := (Binary.ofFloat x).remainder (.ofFloat y)
    if signBit ≤ x.toBits.toNat then -r else r

end Stencil.Decimal
