/-
Filters on lists and objects.

A sort takes the kind of its keys from the first one and keeps the order of items with equal
keys.
-/
import Stencil.Render.Filter.OnText
import Stencil.Render.Pointer
import Stencil.Render.Printed

namespace Stencil.Render.Filter

/-- A filter that picks an item of a list; there is an empty text in an empty place. -/
def pick (name : String) (f : List Json → Option Json) : Filter := fun found _ => do
  return (f (← value name .list found)).getD (.string "")

/-- Picks an item by its index. -/
def nth : Filter := fun found args => do
  let items ← value "nth" .list found
  if items.isEmpty then return .string ""
  let i ← argument "nth" "n" .size (.needsArgument "nth" "an" "n") args
  return (items[i.toNat]?).getD (.string "")

/-- Joins the printed items of a list. -/
def join : Filter := fun found args => do
  let items ← value "join" .list found
  let separator ← argument? "truncate" "sep" .text args
  let separator := (separator.map fun s => String.ofList (unescape s)).getD ""
  return .string (separator.intercalate (items.map Json.printed))

/-- What a sort compares. -/
inductive SortKey where
  | bool (value : Bool)
  | number (value : Float)
  | text (value : String)
  | length (value : Nat)

/-- The place of a double in the order of all doubles.  Numbers stand as they compare, and a
negative zero stands in front of a positive one. -/
def floatRank (x : Float) : Int :=
  let bits := x.toBits.toNat
  if bits < Decimal.signBit then bits else Int.ofNat Decimal.signBit - 1 - bits

/-- Whether one key may stand in front of another of the same kind. -/
def SortKey.le : SortKey → SortKey → Bool
  | bool a, bool b => !a || b
  | number a, number b => floatRank a ≤ floatRank b
  | text a, text b => a ≤ b
  | length a, length b => a ≤ b
  | _, _ => false

/-- The name of the kind of keys that a value opens, and how they are read. -/
def sortKind (first : Json) : Except FilterFault (String × (Json → Option SortKey)) :=
  match first with
  | .null => .error (.unsortable "Null")
  | .object _ => .error (.unsortable "Object")
  | .bool _ => .ok ("bool", fun
      | .bool b => some (.bool b)
      | _ => none)
  | .number _ => .ok ("number", fun
      | .number n => some (.number n.toFloat)
      | _ => none)
  | .string _ => .ok ("string", fun
      | .string s => some (.text s)
      | _ => none)
  | .array _ => .ok ("array", fun
      | .array items => some (.length items.length)
      | _ => none)

/-- Sorts a list, perhaps by a place inside its items. -/
def sort : Filter := fun found args => do
  let items ← value "sort" .list found
  match items with
  | [] => return .array []
  | first :: _ =>
    let field ← argumentD "sort" "attribute" .text "" args
    let keyOf (item : Json) : Except FilterFault Json :=
      match place? item field with
      | some key => .ok key
      | none => .error (.noField field)
    let (kind, read?) ← sortKind (← keyOf first)
    let keyed ← items.mapM fun item => do
      let key ← keyOf item
      match read? key with
      | some k => return (k, item)
      | none => throw (.mixedKeys kind key)
    return .array ((keyed.mergeSort fun a b => a.1.le b.1).map Prod.snd)

/-- A place in a list of the given length.  It is counted from the end if it is negative, and
whatever lies in front of the list counts as its start. -/
def placeIn (length : Nat) (x : Float) : Nat :=
  (if 0 ≤ x then x else Float.ofNat length + x).toUInt64.toNat

/-- A part of a list. -/
def slice : Filter := fun found args => do
  let items ← value "slice" .list found
  if items.isEmpty then return .array []
  let bound := placeIn items.length
  let start := ((← argument? "slice" "start" .real args).map bound).getD 0
  let stop := ((← argument? "slice" "end" .real args).map bound).getD items.length
  return .array ((items.take stop).drop start)

/-- Adds an item, or the items of another list, at the end. -/
def concat : Filter := fun found args => do
  let items ← value "concat" .list found
  match args.get? "with" with
  | none => throw (.needsArgument "concat" "a" "with")
  | some (.array more) => return .array (items ++ more)
  | some item => return .array (items ++ [item])

/-- What an attribute of every item leads to, where it leads somewhere. -/
def map : Filter := fun found args => do
  let items ← value "map" .list found
  if items.isEmpty then return .array []
  let field ← argument "map" "attribute" .text (.needsArgument "map" "an" "attribute") args
  return .array (items.filterMap fun item =>
    match place? item field with
    | some .null => none
    | found => found)

/-- The items with a given attribute, or with any if no value is asked for. -/
def filter : Filter := fun found args => do
  let items ← value "filter" .list found
  if items.isEmpty then return .array []
  let field ←
    argument "filter" "attribute" .text (.needsArgument "filter" "an" "attribute") args
  let wanted := (args.get? "value").getD .null
  return .array (items.filter fun item =>
    let found := (place? item field).getD .null
    match wanted with
    | .null => !found.same .null
    | wanted => found.same wanted)

/-- The member of an object under a key. -/
def get : Filter := fun found args => do
  let key ← argument "get" "key" .text (.needsArgument "get" "an" "key") args
  match found with
  | .object members =>
    match Dict.get? key members, args.get? "default" with
    | some member, _ => return member
    | none, some default => return default
    | none, none => throw (.missingKey key)
  | _ => throw .notAnObject

/-- The number of items, members or characters. -/
def length : Filter := fun found _ =>
  match found with
  | .array items => .ok (.nat items.length)
  | .object members => .ok (.nat members.length)
  | .string s => .ok (.nat s.length)
  | _ => .error .uncountable

/-- The items or the characters in reverse order. -/
def reverse : Filter := fun found _ =>
  match found with
  | .array items => .ok (.array items.reverse)
  | .string s => .ok (.string (String.ofList s.toList.reverse))
  | found => .error (.irreversible found)

/-- A value as JSON. -/
def jsonEncode : Filter := fun found args =>
  match args.get? "pretty" with
  | some (.bool true) => .ok (.string found.indented)
  | _ => .ok (.string found.compact)

/-- The filters on lists, objects, and values of any kind. -/
def onList? : String → Option Filter
  | "first" => some (pick "first" List.head?)
  | "last" => some (pick "last" List.getLast?)
  | "nth" => some nth
  | "join" => some join
  | "sort" => some sort
  | "slice" => some slice
  | "concat" => some concat
  | "map" => some map
  | "filter" => some filter
  | "get" => some get
  | "length" => some length
  | "reverse" => some reverse
  | "json_encode" => some jsonEncode
  | "as_str" => some fun found _ => .ok (.string found.printed)
  | _ => none

end Stencil.Render.Filter
