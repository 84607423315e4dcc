/-
Numbers with a fixed number of places.

A nonnegative double is rounded to the nearest multiple of a power of ten in exact arithmetic;
a tie goes to the even neighbour.
-/
import Stencil.Decimal.Layout

namespace Stencil.Decimal

/-- The integer nearest to `dividend / divisor`; a tie goes to the even one. -/
def roundDiv (dividend divisor : Nat) : Nat :=
  let q := dividend / divisor
  let r := dividend % divisor
  if 2 * r < divisor then q else if divisor < 2 * r then q + 1 else q + q % 2

/-- A natural number of units of the last place, written with the given number of places. -/
def placesText (places n : Nat) : List Char :=
  let fraction := natDigits (n % Nat.pow 10 places)
  natDigits (n / Nat.pow 10 places) ++ '.' :: List.replicate (places - fraction.length) '0' ++ fraction

/-- A nonnegative finite double with a positive number of places. -/
def fixedText (places : Nat) (x : Float) : String :=
  let b := Binary.ofMagnitudeBits (x.toBits.toNat % signBit)
  let units := roundDiv (b.significand * Nat.pow 2 b.exponent.toNat * Nat.pow 10 places)
    (Nat.pow 2 (-b.exponent).toNat)
  String.ofList (placesText places units)

end Stencil.Decimal
