/-
Writing a floating-point number.

The digits are always the shortest ones; formats differ in when they use an exponent and in
how they mark a number that happens to be whole, and in which of two equally near decimals
they prefer.  A `Layout` holds those choices, so that each
format of the library is one value.
-/
import Stencil.Decimal.Shortest

namespace Stencil.Decimal

/-- How a format spells a floating-point number. -/
structure Layout where
  /-- The decimal exponents written positionally, least and greatest; all of them if absent. -/
  positional : Option (Int × Int)
  /-- Whether a whole number in positional notation ends in `.0`. -/
  pointZero : Bool
  /-- Whether a positive exponent carries a plus sign. -/
  plus : Bool
  /-- Which of two equally near decimals is written. -/
  tie : Tie

/-- Whether a decimal exponent is written positionally. -/
def Layout.isPositional (l : Layout) (exponent : Int) : Bool :=
  match l.positional with
  | none => true
  | some (least, greatest) => least ≤ exponent && exponent ≤ greatest

/-- The digits of a natural number. -/
def natDigits (n : Nat) : List Char := Nat.toDigits 10 n

/-- Positional notation of `significand · 10 ^ exponent`. -/
def positionalText (pointZero : Bool) (d : Digits) : List Char :=
  let digits := natDigits d.significand
  let whole := if pointZero then ['.', '0'] else []
  if 0 ≤ d.exponent then digits ++ List.replicate d.exponent.toNat '0' ++ whole
  else
    let places := (-d.exponent).toNat
    if places < digits.length then
      digits.take (digits.length - places) ++ '.' :: digits.drop (digits.length - places)
    else '0' :: '.' :: List.replicate (places - digits.length) '0' ++ digits

/-- Scientific notation of `significand · 10 ^ exponent`. -/
def scientificText (plus : Bool) (d : Digits) : List Char :=
  let digits := natDigits d.significand
  let exponent := d.exponent + (digits.length - 1 : Nat)
  let mantissa := match digits with
    | first :: second :: rest => first :: '.' :: second :: rest
    | short => short
  let sign := if exponent < 0 then ['-'] else if plus then ['+'] else []
  mantissa ++ 'e' :: sign ++ natDigits exponent.natAbs

/-- The text of a magnitude. -/
def Layout.writeDigits (l : Layout) (d : Digits) : List Char :=
  let exponent := d.exponent + ((natDigits d.significand).length - 1 : Nat)
  if d.significand = 0 || l.isPositional exponent then positionalText l.pointZero d
  else scientificText l.plus d

/-- The text of a number. -/
def Layout.write (l : Layout) (x : Float) : List Char :=
  let bits := x.toBits.toNat
  let magnitude := bits % signBit
  let sign := if signBit ≤ bits then ['-'] else []
  if magnitude = 0x7FF0000000000000 then sign ++ ['i', 'n', 'f']
  else if 0x7FF0000000000000 < magnitude then ['N', 'a', 'N']
  else sign ++ l.writeDigits ((Binary.ofMagnitudeBits magnitude).shortest l.tie)

/-- Numbers as a page shows them: never an exponent, and no point in a whole number. -/
def plainLayout : Layout := ⟨none, false, false, .up⟩

/-- Numbers in diagnostics: an exponent below `1e-4` and from `1e16` on. -/
def diagnosticLayout : Layout := ⟨some (-4, 15), true, false, .up⟩

end Stencil.Decimal
