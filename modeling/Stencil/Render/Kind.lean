/-
Kinds of values.

Filters and functions ask for values of a certain kind.  A kind says how a value of it is read,
and what diagnostics call it.
-/
import Stencil.Json.Value

namespace Stencil.Render

/-- A kind of values, read as elements of `α`. -/
structure Kind (α : Type) where
  name : String
  read? : Json → Option α

namespace Kind

/-- Strings. -/
def text : Kind String := ⟨"String", fun
  | .string s => some s
  | _ => none⟩

/-- Arrays. -/
def list : Kind (List Json) := ⟨"Vec<Value>", fun
  | .array items => some items
  | _ => none⟩

/-- Numbers of any kind, as doubles. -/
def real : Kind Float := ⟨"f64", fun
  | .number n => some n.toFloat
  | _ => none⟩

/-- Integers from `least` up to, but not including, `limit`. -/
def integer (name : String) (least limit : Int) : Kind Int := ⟨name, fun
  | .number (.int n) => if least ≤ n ∧ n < limit then some n else none
  | _ => none⟩

/-- Signed integers of 64 bits. -/
def int64 : Kind Int := integer "i64" Number.leastInt Number.intLimit

/-- Signed integers of 32 bits. -/
def int32 : Kind Int := integer "i32" (-2147483648) 2147483648

/-- Sizes and indices. -/
def size : Kind Int := integer "usize" 0 Number.natLimit

/-- Unsigned integers of 32 bits. -/
def nat32 : Kind Int := integer "u32" 0 4294967296

end Kind

end Stencil.Render
