/-
Reading a floating-point number.

A decimal with an optional fraction and an optional exponent stands for the double nearest to
it.
-/
namespace Stencil.Decimal

/-- The number that a list of decimal digits stands for. -/
def digitsValue (digits : List Char) : Nat :=
  digits.foldl (fun n c => 10 * n + (c.toNat - '0'.toNat)) 0

/-- The double nearest to `digits · 10 ^ exponent`, with its sign.  A number that is far beyond
the range of doubles is infinite or zero whatever its digits are. -/
def ofDigits (negative : Bool) (digits : List Char) (exponent : Int) : Float :=
  let significant := digits.dropWhile (· = '0')
  let order := significant.length + exponent
  let x :=
    if significant.isEmpty ∨ order < -400 then 0.0
    else if 400 < order then 1.0 / 0.0
    else Float.ofScientific (digitsValue significant) (exponent < 0) exponent.natAbs
  if negative then -x else x

/-- The sign in front of a number, and what follows it. -/
def splitSign : List Char → Bool × List Char
  | '-' :: rest => (true, rest)
  | '+' :: rest => (false, rest)
  | rest => (false, rest)

/-- The exponent at the end of a number, if it is well formed. -/
def exponent? : List Char → Option Int
  | [] => some 0
  | c :: rest =>
    if c = 'e' ∨ c = 'E' then
      let (negative, digits) := splitSign rest
      if digits.isEmpty || !digits.all Char.isDigit then none
      else some (if negative then -Int.ofNat (digitsValue digits) else digitsValue digits)
    else none

/-- The double that a text stands for: digits with at most one point among or beside them, and
perhaps an exponent. -/
def float? (text : List Char) : Option Float :=
  let (negative, rest) := splitSign text
  let whole := rest.takeWhile Char.isDigit
  let (fraction, tail) :=
    match rest.drop whole.length with
    | '.' :: more => (more.takeWhile Char.isDigit, more.dropWhile Char.isDigit)
    | more => ([], more)
  if whole.isEmpty && fraction.isEmpty then none
  else
    (exponent? tail).map fun e =>
      ofDigits negative (whole ++ fraction) (e - fraction.length)

/-- The integer part of a double, kept within the range of a signed 64-bit word; zero for what
is no number. -/
def truncate (x : Float) : Int := x.toInt64.toInt

end Stencil.Decimal
