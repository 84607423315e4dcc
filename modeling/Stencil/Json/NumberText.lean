/-
Numbers in a JSON text.

Reading keeps at most as many digits as fit an unsigned 64-bit word, which is enough for every
exact integer.  Any other number is the double of those digits, multiplied or divided by the
power of ten that the dropped digits, the fraction and the exponent amount to.
-/
import Stencil.Json.Fault
import Stencil.Json.Value

namespace Stencil.Json

/-- The first natural number that does not fit the word in which digits are collected. -/
def wordLimit : Nat := 18446744073709551616

/-- The value of a decimal digit. -/
def digitValue (c : Char) : Nat := c.toNat - '0'.toNat

/-- Appends digits to a number as long as it fits the word, and counts those appended. -/
def collect (collected : Nat) : List Char → Nat × Nat
  | [] => (collected, 0)
  | c :: cs =>
    let next := 10 * collected + digitValue c
    if next < wordLimit then
      let (value, count) := collect next cs
      (value, count + 1)
    else (collected, 0)

/-- `significand · 10 ^ exponent` as a double, one multiplication or division for every 308
powers of ten; nothing if it is too large.  After `fuel` divisions by `10 ^ 308` every word
has become zero. -/
def scaled? : (fuel : Nat) → (x : Float) → (exponent : Int) → Option Float
  | 0, x, _ => some x
  | fuel + 1, x, exponent =>
    if exponent.natAbs ≤ 308 then
      let power := Float.ofScientific 1 false exponent.natAbs
      if 0 ≤ exponent then
        let y := x * power
        if y.isInf then none else some y
      else some (x / power)
    else if x == 0 then some x
    else if 0 ≤ exponent then none
    else scaled? fuel (x / Float.ofScientific 1 false 308) (exponent + 308)

/-- The double of a sign, collected digits and a power of ten. -/
def floatOfParts (negative : Bool) (significand : Nat) (exponent : Int) : Except Fault Number :=
  match scaled? 4 (Float.ofNat significand) exponent with
  | some x => .ok (.float (if negative then -x else x))
  | none => .error .numberOutOfRange

/-- The number of a sign and collected digits: an exact integer if it is in range, where minus
zero is no integer. -/
def numberOfDigits (negative : Bool) (significand : Nat) : Number :=
  if negative then
    if 0 < significand ∧ Number.leastInt ≤ -Int.ofNat significand then
      .int (-Int.ofNat significand)
    else .float (-(Float.ofNat significand))
  else .int significand

/-- The greatest exponent that is read; a longer one counts as infinite. -/
def exponentLimit : Nat := 2147483648

/-- A number with an exponent part, given the sign and the digits of the exponent. -/
def withExponent (negative : Bool) (significand : Nat) (exponent : Int)
    (exponentNegative : Bool) (digits : List Char) : Except Fault Number :=
  let (value, count) := collect 0 digits
  if count < digits.length ∨ exponentLimit ≤ value then
    if significand ≠ 0 ∧ !exponentNegative then .error .numberOutOfRange
    else .ok (.float (if negative then -0.0 else 0.0))
  else
    floatOfParts negative significand
      (if exponentNegative then exponent - value else exponent + value)

/-- A number's text split off the text behind it, with the number it stands for.  The outer
fault says that the text is no number; the inner one, that the number cannot be held. -/
abbrev NumberScan := Except Fault (Except Fault Number × List Char)

/-- What is wrong where a digit was due. -/
def digitDue : List Char → Fault
  | [] => .endInValue
  | _ :: _ => .badNumber

/-- Reads the exponent part, if there is one, behind digits worth `exponent` powers of ten. -/
def scanExponent (negative : Bool) (significand : Nat) (exponent : Int)
    (plain : Except Fault Number) : List Char → NumberScan
  | c :: cs =>
    if c = 'e' ∨ c = 'E' then
      let (sign, rest) := match cs with
        | '+' :: more => (false, more)
        | '-' :: more => (true, more)
        | more => (false, more)
      let digits := rest.takeWhile Char.isDigit
      if digits.isEmpty then .error (digitDue rest)
      else
        .ok (withExponent negative significand exponent sign digits,
          rest.dropWhile Char.isDigit)
    else .ok (plain, c :: cs)
  | [] => .ok (plain, [])

/-- Reads the fraction, if there is one, and the exponent part. -/
def scanFraction (negative : Bool) (significand : Nat) (exponent : Int)
    (plain : Except Fault Number) : List Char → NumberScan
  | '.' :: cs =>
    let digits := cs.takeWhile Char.isDigit
    if digits.isEmpty then .error (digitDue cs)
    else
      let (value, count) := collect significand digits
      let shifted := exponent - count
      scanExponent negative value shifted (floatOfParts negative value shifted)
        (cs.dropWhile Char.isDigit)
  | cs => scanExponent negative significand exponent plain cs

/-- Reads a number behind its sign. -/
def scanMagnitude (negative : Bool) : List Char → NumberScan
  | [] => .error .endInValue
  | c :: cs =>
    if c = '0' then
      if (cs.head?.map Char.isDigit).getD false then .error .badNumber
      else scanFraction negative 0 0 (.ok (numberOfDigits negative 0)) cs
    else if c.isDigit then
      let digits := (c :: cs).takeWhile Char.isDigit
      let (value, count) := collect 0 digits
      let dropped : Nat := digits.length - count
      let plain :=
        if dropped = 0 then .ok (numberOfDigits negative value)
        else floatOfParts negative value dropped
      scanFraction negative value dropped plain ((c :: cs).dropWhile Char.isDigit)
    else .error .badNumber

/-- Reads a number. -/
def scanNumber : List Char → NumberScan
  | '-' :: cs => scanMagnitude true cs
  | cs => scanMagnitude false cs

end Stencil.Json
