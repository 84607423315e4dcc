/-
Arithmetic.

Two signed words give a signed word, two unsigned words an unsigned one, and any other operands
are taken as doubles.  A result that does not fit its word is a fault; a double that is not
finite is no number, which `none` stands for.
-/
import Stencil.Decimal.Reading
import Stencil.Render.Problem

namespace Stencil.Render

open Stencil.Language (MathOp)

/-- The word that two exact operands and their result have to fit: the least number, the first
one too large, and whether it is signed. -/
def commonWord? (lhs rhs : Number) : Option (Int × Int × Int × Int × Bool) :=
  match lhs, rhs with
  | .int a, .int b =>
    if lhs.toInt?.isSome && rhs.toInt?.isSome then
      some (a, b, Number.leastInt, Number.intLimit, true)
    else if lhs.toNat?.isSome && rhs.toNat?.isSome then some (a, b, 0, Number.natLimit, false)
    else none
  | _, _ => none

/-- A finite double as a number. -/
def finite? (x : Float) : Option Number := if x.isFinite then some (.float x) else none

/-- The exact result of an operation that stays among the integers. -/
def exactOp : MathOp → Int → Int → Int
  | .add, a, b => a + b
  | .sub, a, b => a - b
  | .mul, a, b => a * b
  | .div, a, b => Int.tdiv a b
  | .modulo, a, b => Int.tmod a b

/-- The result of an operation on doubles. -/
def floatOp : MathOp → Float → Float → Float
  | .add, x, y => x + y
  | .sub, x, y => x - y
  | .mul, x, y => x * y
  | .div, x, y => x / y
  | .modulo, x, y => Decimal.remainder x y

/-- A quotient: an integer if it is whole, otherwise a double. -/
def quotient (x y : Float) : Option Number :=
  let q := x / y
  if q.round == q && q.isFinite then some (.int (Decimal.truncate q)) else finite? q

/-- The result of an operation; `shown` gives the operands as they were written. -/
def combine (op : MathOp) (lhs rhs : Number) (shown : Unit → String × String) :
    Except ArithmeticFault (Option Number) :=
  match op with
  | .div => .ok (quotient lhs.toFloat rhs.toFloat)
  | op =>
    match commonWord? lhs rhs with
    | none => .ok (finite? (floatOp op lhs.toFloat rhs.toFloat))
    | some (a, b, least, limit, signed) =>
      if op = .modulo ∧ b = 0 then .error (.moduloZero (shown ()).1 (shown ()).2)
      else
        let n := exactOp op a b
        if least ≤ n ∧ n < limit then .ok (some (.int n))
        else .error (.overflow op a b signed)

/-- How a comparison of two doubles comes out. -/
def compareBy (op : Language.LogicOp) (x y : Float) : Bool :=
  match op with
  | .gt => x > y
  | .gte => x ≥ y
  | .lt => x < y
  | .lte => x ≤ y
  | _ => false

end Stencil.Render
