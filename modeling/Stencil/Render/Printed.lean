/-
Values on a page.

A value is printed as a reader expects to see it: a string as it is, a number without an
exponent, nothing for null, and an array with its items between brackets.
-/
import Stencil.Language.Dump

namespace Stencil

/-- A number on a page. -/
def Number.printed : Number → String
  | int n => intName n
  | float x => String.ofList (Decimal.plainLayout.write x)

namespace Json

mutual

/-- A value on a page. -/
def printed : Json → String
  | null => ""
  | bool b => boolName b
  | number n => n.printed
  | string s => s
  | array items => listed "[" "]" (printedItems items)
  | object _ => "[object]"

/-- The items of an array on a page. -/
def printedItems : List Json → List String
  | [] => []
  | item :: items => item.printed :: printedItems items

end

/-- Whether a value counts as true: all do but null, false, zero, and what is empty. -/
def isTruthy : Json → Bool
  | null => false
  | bool b => b
  | number (.int n) => n != 0
  | number (.float x) => x != 0 && !x.isNaN
  | string s => !s.isEmpty
  | array items => !items.isEmpty
  | object members => !members.isEmpty

/-- A double as a value; what is no finite number is null. -/
def ofFloat (x : Float) : Json := if x.isFinite then number (.float x) else null

/-- A natural number as a value. -/
def nat (n : Nat) : Json := int n

end Json

end Stencil
