/-
JSON values.

Integers between the least signed and the greatest unsigned 64-bit number are exact; every
other number is a double.  Objects are dictionaries, so their members stand in ascending order
of their keys and no key occurs twice.
-/
import Stencil.Dict

namespace Stencil

/-- A JSON number: an exact integer, or a double. -/
inductive Number where
  | int (value : Int)
  | float (value : Float)
deriving Repr

namespace Number

/-- The least exact integer. -/
def leastInt : Int := -9223372036854775808

/-- The first natural number too large to be exact. -/
def natLimit : Int := 18446744073709551616

/-- The first natural number too large for a signed word. -/
def intLimit : Int := 9223372036854775808

/-- The number as a signed 64-bit integer, if it is one. -/
def toInt? : Number → Option Int
  | .int n => if leastInt ≤ n ∧ n < intLimit then some n else none
  | .float _ => none

/-- The number as an unsigned 64-bit integer, if it is one. -/
def toNat? : Number → Option Nat
  | .int n => if 0 ≤ n ∧ n < natLimit then some n.toNat else none
  | .float _ => none

/-- The double nearest to the number. -/
def toFloat : Number → Float
  | .int n => if n < 0 then -(Float.ofNat n.natAbs) else Float.ofNat n.natAbs
  | .float x => x

/-- Whether two numbers are the same value of the same kind. -/
def same : Number → Number → Bool
  | .int a, .int b => a = b
  | .float a, .float b => a == b
  | _, _ => false

end Number

/-- A JSON value. -/
inductive Json where
  | null
  | bool (value : Bool)
  | number (value : Number)
  | string (text : String)
  | array (items : List Json)
  | object (members : List (String × Json))
deriving Inhabited

namespace Json

/-- An exact integer. -/
abbrev int (n : Int) : Json := .number (.int n)

mutual

/-- Whether two values are the same.  Doubles are compared as numbers, and an integer differs
from every double. -/
def same : Json → Json → Bool
  | null, null => true
  | bool a, bool b => a == b
  | number a, number b => a.same b
  | string a, string b => a == b
  | array a, array b => sameItems a b
  | object a, object b => sameMembers a b
  | _, _ => false

/-- Whether two lists hold the same values in the same order. -/
def sameItems : List Json → List Json → Bool
  | [], [] => true
  | a :: as, b :: bs => same a b && sameItems as bs
  | _, _ => false

/-- Whether two objects hold the same values under the same keys. -/
def sameMembers : List (String × Json) → List (String × Json) → Bool
  | [], [] => true
  | (k, a) :: as, (l, b) :: bs => k == l && same a b && sameMembers as bs
  | _, _ => false

end

/-- The members of an object. -/
def members? : Json → Option (Dict Json)
  | object members => some members
  | _ => none

/-- The value under a key of an object. -/
def get? (key : String) : Json → Option Json
  | object members => Dict.get? key members
  | _ => none

end Json

end Stencil
