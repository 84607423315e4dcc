/-
TOML values and the tables they are put into.

A table remembers how it came to be, because that decides what may still be added to it: a
table that only stands in the path of a header may get a header of its own, one that was made
by a dotted key takes further dotted keys, and an inline table is complete.
-/
import Stencil.Dict
import Stencil.Json.Value

namespace Stencil

/-- How a table came to be. -/
inductive Toml.Origin where
  /-- As part of the path of a header. -/
  | path
  /-- By a header of its own. -/
  | header
  /-- By a dotted key. -/
  | dotted
  /-- Between braces. -/
  | inline
deriving DecidableEq, Repr

/-- A TOML value.  An item of an array carries the number of the line on which it starts, a
member of a table the numbers of the lines on which its key and its value start. -/
inductive Toml where
  | string (text : String)
  | int (value : Int)
  | float (value : Float)
  /-- A decimal number beyond the range of doubles. -/
  | tooLarge
  | bool (value : Bool)
  | datetime (text : String)
  | array (items : List (Nat × Toml))
  | table (origin : Toml.Origin) (members : List (String × Nat × Nat × Toml))
  /-- The tables of one name that were each given a header in double brackets. -/
  | tables (items : List (Nat × Toml))
deriving Inhabited

namespace Toml

/-- The members of a table, in the order in which they were first named. -/
abbrev Members := List (String × Nat × Nat × Toml)

/-- The lines and the value of the member of a given name. -/
def Members.get? (key : String) (members : Members) : Option (Nat × Nat × Toml) :=
  members.lookup key

/-- Replaces a member, or adds it at the end. -/
def Members.set (key : String) (keyLine line : Nat) (value : Toml) : Members → Members
  | [] => [(key, keyLine, line, value)]
  | (k, m) :: rest =>
    if k = key then (key, keyLine, line, value) :: rest
    else (k, m) :: set key keyLine line value rest

/-- Why a key cannot be added to a table. -/
inductive Clash where
  | duplicateKey
deriving DecidableEq

/-- Changes the members of the last of several tables. -/
def changeLast (change : Members → Except Clash Members) (items : List (Nat × Toml)) :
    Except Clash Toml :=
  match items.reverse with
  | (line, .table origin inner) :: before => do
    let inner ← change inner
    return .tables (before.reverse ++ [(line, .table origin inner)])
  | _ => .error .duplicateKey

/-- Applies a change to the table that a header's path leads to.  A path through an array of
tables goes into its last one. -/
def Members.descend (line : Nat) (change : Members → Except Clash Members) :
    List String → Members → Except Clash Members
  | [], members => change members
  | key :: path, members =>
    match members.get? key with
    | none => do
      let inner ← descend line change path []
      return members.set key line line (.table .path inner)
    | some (_, _, .table .inline _) => .error .duplicateKey
    | some (k, l, .table origin inner) => do
      let inner ← descend line change path inner
      return members.set key k l (.table origin inner)
    | some (k, l, .tables items) => do
      return members.set key k l (← changeLast (descend line change path) items)
    | some _ => .error .duplicateKey

/-- Adds the table of a header in single brackets. -/
def Members.addTable (line : Nat) (key : String) (members : Members) : Except Clash Members :=
  match members.get? key with
  | none => .ok (members.set key line line (.table .header []))
  | some (_, _, .table .path inner) => .ok (members.set key line line (.table .header inner))
  | some _ => .error .duplicateKey

/-- Adds a table of a header in double brackets. -/
def Members.appendTable (line : Nat) (key : String) (members : Members) :
    Except Clash Members :=
  let new : Nat × Toml := (line, .table .header [])
  match members.get? key with
  | none => .ok (members.set key line line (.tables [new]))
  | some (k, l, .tables items) => .ok (members.set key k l (.tables (items ++ [new])))
  | some _ => .error .duplicateKey

/-- Adds a value under a dotted key.  Only tables that were made by dotted keys get new members
this way; a path may lead through the tables of headers as long as it does not end there. -/
def Members.addValue (keyLine line : Nat) (value : Toml) :
    List String → Members → Except Clash Members
  | [], _ => .error .duplicateKey
  | [key], members =>
    match members.get? key with
    | none => .ok (members.set key keyLine line value)
    | some _ => .error .duplicateKey
  | key :: path, members =>
    let below := addValue keyLine line value path
    match members.get? key with
    | none => do
      return members.set key keyLine keyLine (.table .dotted (← below []))
    | some (k, l, .table .dotted inner) => do
      return members.set key k l (.table .dotted (← below inner))
    | some (k, l, .table .path inner) =>
      match path with
      | _ :: _ :: _ => do return members.set key k l (.table .path (← below inner))
      | _ => .error .duplicateKey
    | some (k, l, .tables items) =>
      match path with
      | _ :: _ :: _ => do return members.set key k l (← changeLast below items)
      | _ => .error .duplicateKey
    | some _ => .error .duplicateKey

mutual

/-- A value with the members of all its tables in the order of their keys. -/
def sorted : Toml → Toml
  | array items => array (sortedItems items)
  | tables items => tables (sortedItems items)
  | table origin members => table origin (Dict.ofPairs (sortedMembers members))
  | value => value

/-- The items of an array, each of them sorted. -/
def sortedItems : List (Nat × Toml) → List (Nat × Toml)
  | [] => []
  | (line, item) :: items => (line, item.sorted) :: sortedItems items

/-- The members of a table, each of them sorted. -/
def sortedMembers : Members → Members
  | [] => []
  | (key, keyLine, line, value) :: members =>
    (key, keyLine, line, value.sorted) :: sortedMembers members

end

mutual

/-- Whether every number in a value fits a 64-bit word: a signed integer or a double. -/
def isRegular : Toml → Bool
  | int n => decide (Number.leastInt ≤ n ∧ n < Number.intLimit)
  | tooLarge => false
  | array items => areRegular items
  | tables items => areRegular items
  | table _ members => membersAreRegular members
  | _ => true

/-- Whether every number in the items of an array fits. -/
def areRegular : List (Nat × Toml) → Bool
  | [] => true
  | (_, item) :: items => item.isRegular && areRegular items

/-- Whether every number in the members of a table fits. -/
def membersAreRegular : Members → Bool
  | [] => true
  | (_, _, _, value) :: members => value.isRegular && membersAreRegular members

end

/-- What the type of a value is called. -/
def typeName : Toml → String
  | string _ => "string"
  | int _ => "integer"
  | float _ | tooLarge => "float"
  | bool _ => "boolean"
  | datetime _ => "datetime"
  | array _ | tables _ => "array"
  | table _ _ => "table"

end Toml

end Stencil
