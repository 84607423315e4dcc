/-
Caches.

A cache keeps what was made for an identifier and counts how often a look-up found something.
What is kept first stays: a later value for the same identifier is dropped.
-/
import Stencil.Dict

namespace Stencil

/-- Values under identifiers, with the numbers of look-ups that found one and that did not. -/
structure Cache (α : Type) where
  entries : Dict α := []
  hits : Nat := 0
  misses : Nat := 0

namespace Cache

variable {α : Type}

/-- Looks an identifier up and counts the look-up. -/
def find (c : Cache α) (id : String) : Option α × Cache α :=
  match c.entries.get? id with
  | some value => (some value, { c with hits := c.hits + 1 })
  | none => (none, { c with misses := c.misses + 1 })

/-- Keeps a value unless there is one already, and returns the value that is kept. -/
def keep (c : Cache α) (id : String) (value : α) : α × Cache α :=
  match c.entries.get? id with
  | some kept => (kept, c)
  | none => (value, { c with entries := c.entries.insert id value })

/-- Whether there is a value under an identifier. -/
def contains (c : Cache α) (id : String) : Bool := c.entries.hasKey id

/-- The identifiers, in ascending order. -/
def ids (c : Cache α) : List String := c.entries.keys

/-- The share of look-ups that found something, as a percentage. -/
def hitRate (c : Cache α) : Float :=
  if c.hits + c.misses = 0 then 0
  else Float.ofNat c.hits / Float.ofNat (c.hits + c.misses) * 100

end Cache

end Stencil
