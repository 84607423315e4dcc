/-
Filters on numbers.
-/
import Stencil.Decimal.Reading
import Stencil.Render.Filter.Fault
import Stencil.Render.Printed
import Stencil.Text.Blank
import Stencil.Text.Search

namespace Stencil.Render.Filter

/-- The absolute value of a number.  The least integer of a signed word stays, because its
absolute value does not fit one. -/
def abs : Filter := fun found _ =>
  match found with
  | .number (.int n) => .ok (.int (if n = Number.leastInt then n else n.natAbs))
  | .number (.float x) => .ok (.ofFloat x.abs)
  | _ => .error .notNumeric

/-- One of two endings, depending on whether a number is one. -/
def pluralize : Filter := fun found args => do
  let x ← value "pluralize" .real found
  let plural ← argumentD "pluralize" "plural" .text "s" args
  let singular ← argumentD "pluralize" "singular" .text "" args
  return .string (if (x.abs - 1).abs > Float.scaleB 1 (-52) then plural else singular)

/-- `x` to the power `n`, by squaring; `fuel` bounds the number of binary digits of `n`. -/
def power : (fuel : Nat) → (x : Float) → (n : Nat) → (product : Float) → Float
  | 0, _, _, product => product
  | fuel + 1, x, n, product =>
    let product := if n % 2 = 1 then product * x else product
    if n / 2 = 0 then product else power fuel (x * x) (n / 2) product

/-- The given power of ten. -/
def powerOfTen (n : Int) : Float :=
  let p := power 32 10 n.natAbs 1
  if n < 0 then 1 / p else p

/-- A number rounded to some places after the point. -/
def round : Filter := fun found args => do
  let x ← value "round" .real found
  let method ← argumentD "round" "method" .text "common" args
  let precision ← argumentD "round" "precision" .int32 0 args
  let unit := if precision = 0 then 1 else powerOfTen precision
  match method with
  | "common" => return .ofFloat ((unit * x).round / unit)
  | "ceil" => return .ofFloat ((unit * x).ceil / unit)
  | "floor" => return .ofFloat ((unit * x).floor / unit)
  | other => throw (.unknownRounding other)

/-- The value of a digit. -/
def digitValue? (c : Char) : Option Nat :=
  let n := c.toNat
  if '0'.toNat ≤ n ∧ n ≤ '9'.toNat then some (n - '0'.toNat)
  else if 'a'.toNat ≤ n ∧ n ≤ 'z'.toNat then some (n - 'a'.toNat + 10)
  else if 'A'.toNat ≤ n ∧ n ≤ 'Z'.toNat then some (n - 'A'.toNat + 10)
  else none

/-- The natural number that digits stand for in a base. -/
def natInBase? (base : Nat) (digits : List Char) : Option Nat :=
  if digits.isEmpty then none
  else
    digits.foldlM (fun n c => do
      let d ← digitValue? c
      if d < base then some (base * n + d) else none) 0

/-- The signed 64-bit integer that a text stands for in a base. -/
def intInBase? (base : Nat) (text : List Char) : Option Int := do
  let (negative, digits) := Decimal.splitSign text
  let n ← natInBase? base digits
  let n : Int := if negative then -Int.ofNat n else n
  if Number.leastInt ≤ n ∧ n < Number.intLimit then some n else none

/-- What may stand in front of the digits in a base. -/
def baseMark : Nat → List Char
  | 2 => ['0', 'b']
  | 8 => ['0', 'o']
  | 16 => ['0', 'x']
  | _ => []

/-- The integer that a text stands for; a decimal loses its fraction. -/
def intOfText (base : Nat) (default : Int) (text : String) : Int :=
  let digits := Text.dropRepeated (baseMark base) (Text.trim text.toList)
  match intInBase? base digits with
  | some n => n
  | none =>
    if '.' ∈ digits then ((Decimal.float? digits).map Decimal.truncate).getD default
    else default

/-- A number or a text as an integer. -/
def int : Filter := fun found args => do
  let default ← argumentD "int" "default" .int64 0 args
  let base ← argumentD "int" "base" .nat32 10 args
  match found with
  | .string text => return .int (intOfText base.toNat default text)
  | .number n => return .int (Decimal.truncate n.toFloat)
  | _ => throw .notConvertible

/-- The filters on numbers. -/
def onNumber? : String → Option Filter
  | "abs" => some abs
  | "pluralize" => some pluralize
  | "round" => some round
  | "int" => some int
  | _ => none

end Stencil.Render.Filter
