/-
Dictionaries.

A dictionary is a list of pairs in ascending order of their keys.  The order is that of the
code points, which is also the order of the encoded bytes, so listing a dictionary shows its
keys in the order in which every answer of the library shows them.  `insert` keeps the order
and lets a new value replace an old one.
-/
namespace Stencil

/-- Values under string keys, in ascending order of the keys. -/
abbrev Dict (α : Type) := List (String × α)

namespace Dict

variable {α β : Type}

/-- The value under a key. -/
def get? (key : String) : Dict α → Option α
  | [] => none
  | (k, v) :: rest => if k = key then some v else get? key rest

/-- Whether there is a value under a key. -/
def hasKey (key : String) (d : Dict α) : Bool := (d.get? key).isSome

/-- Puts a value under a key, in place of the one that is there. -/
def insert (key : String) (value : α) : Dict α → Dict α
  | [] => [(key, value)]
  | (k, v) :: rest =>
    if key = k then (key, value) :: rest
    else if key < k then (key, value) :: (k, v) :: rest
    else (k, v) :: insert key value rest

/-- The keys, in ascending order. -/
def keys (d : Dict α) : List String := d.map Prod.fst

/-- The dictionary of a list of pairs, in which a later pair replaces an earlier one of the
same key. -/
def ofPairs (pairs : List (String × α)) : Dict α :=
  pairs.foldl (fun d pair => d.insert pair.1 pair.2) []

/-- The entries of `top` put over those of `d`. -/
def override (d top : Dict α) : Dict α :=
  top.foldl (fun d pair => d.insert pair.1 pair.2) d

/-- Applies a function to every value. -/
def mapValues (f : α → β) (d : Dict α) : Dict β := d.map fun pair => (pair.1, f pair.2)

end Dict

end Stencil
