/-
The shortest decimal of a floating-point number.

A finite double is `significand · 2 ^ exponent`, and every real close enough to it rounds to
it.  `shortest` finds the coarsest decimal grid that has a point among those reals, by testing
on each grid the two points next to the number, in exact arithmetic; of two such points it
takes the nearer one, and if both are equally near a `Tie` decides.  The ends of the interval
round to the number exactly when its significand is even, for a tie goes to the even neighbour.
-/
namespace Stencil.Decimal

/-- A positive double as an integer times a power of two.  `lowestOfBinade` marks the numbers
whose lower neighbour is only half as far away as the upper one. -/
structure Binary where
  significand : Nat
  exponent : Int
  lowestOfBinade : Bool
deriving Repr, DecidableEq

/-- A decimal `significand · 10 ^ exponent`. -/
structure Digits where
  significand : Nat
  exponent : Int
deriving Repr, DecidableEq

/-- Which of two equally near decimals is taken. -/
inductive Tie where
  /-- The greater one. -/
  | up
  /-- The one with an even last digit. -/
  | even
deriving DecidableEq, Repr

/-- The number of fractions in the encoding of a double, two to the power of 52. -/
def fractionLimit : Nat := 4503599627370496

/-- The place of the sign in the encoding of a double, two to the power of 63. -/
def signBit : Nat := 9223372036854775808

/-- The magnitude of a finite double, from the lower 63 bits of its encoding. -/
def Binary.ofMagnitudeBits (bits : Nat) : Binary :=
  let fraction := bits % fractionLimit
  let biased := bits / fractionLimit
  if biased = 0 then ⟨fraction, -1074, false⟩
  else ⟨fractionLimit + fraction, Int.ofNat biased - 1075, fraction = 0 && 1 < biased⟩

/-- The interval of reals that round to a number, in quarters of its last binary place:
how far it reaches down, and how far up. -/
def Binary.reach (x : Binary) : Nat × Nat := (if x.lowestOfBinade then 1 else 2, 2)

/-- A number measured on the decimal grid of spacing `10 ^ k`: a quarter of its last binary
place is `up / down` grid units. -/
structure Measure where
  up : Nat
  down : Nat

/-- Measures a number on the grid of spacing `10 ^ k`. -/
def Binary.measure (x : Binary) (k : Int) : Measure where
  up := Nat.pow 2 (x.exponent - 2).toNat * Nat.pow 10 (-k).toNat
  down := Nat.pow 2 (2 - x.exponent).toNat * Nat.pow 10 k.toNat

/-- Whether the grid point `n` rounds to the number. -/
def Binary.hits (x : Binary) (m : Measure) (n : Nat) : Bool :=
  let low := (4 * x.significand - x.reach.1) * m.up
  let high := (4 * x.significand + x.reach.2) * m.up
  let point := n * m.down
  if x.significand % 2 = 0 then low ≤ point && point ≤ high else low < point && point < high

/-- The lower one of two neighbouring grid points or the upper one, whichever is nearer, given
how far away each of them is. -/
def Tie.choose (tie : Tie) (below distanceBelow distanceAbove : Nat) : Nat :=
  if distanceBelow < distanceAbove then below
  else if distanceAbove < distanceBelow then below + 1
  else
    match tie with
    | .up => below + 1
    | .even => if below % 2 = 0 then below else below + 1

/-- The grid point next to the number that rounds to it, the nearer one if both do. -/
def Binary.hit? (x : Binary) (tie : Tie) (m : Measure) : Option Nat :=
  let scaled := 4 * x.significand * m.up
  let below := scaled / m.down
  let above := below + 1
  match x.hits m below, x.hits m above with
  | true, true => some (tie.choose below (scaled - below * m.down) (above * m.down - scaled))
  | true, false => some below
  | false, true => some above
  | false, false => none

/-- Searches the grids from spacing `10 ^ k` downwards, `fuel` of them. -/
def Binary.search (x : Binary) (tie : Tie) : (fuel : Nat) → (k : Int) → Digits
  | 0, k => ⟨(4 * x.significand * (x.measure k).up) / (x.measure k).down, k⟩
  | fuel + 1, k =>
    match x.hit? tie (x.measure k) with
    | some n => ⟨n, k⟩
    | none => x.search tie fuel (k - 1)

/-- An exponent of ten that is above the number and not far above it. -/
def Binary.decimalBound (x : Binary) : Int :=
  Int.fdiv ((Nat.log2 x.significand + 1 + x.exponent) * 30103) 100000 + 1

/-- Moves factors of ten from the significand into the exponent; `fuel` bounds their number. -/
def Digits.stripZeros : (fuel : Nat) → Digits → Digits
  | 0, d => d
  | fuel + 1, d =>
    if d.significand ≠ 0 ∧ d.significand % 10 = 0 then
      stripZeros fuel ⟨d.significand / 10, d.exponent + 1⟩
    else d

/-- The fewest digits that read back as the number, and among those the nearest.  Seventeen
digits always suffice, and the search starts at most a few grids too high. -/
def Binary.shortest (x : Binary) (tie : Tie) : Digits :=
  if x.significand = 0 then ⟨0, 0⟩ else (x.search tie 24 x.decimalBound).stripZeros 20

end Stencil.Decimal
