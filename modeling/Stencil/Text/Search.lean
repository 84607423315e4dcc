/-
Finding one text inside another.

All searches go from left to right and matches do not overlap.  Each function walks the
characters once and carries the number of characters of the current match that are still to be
passed over, so that every recursion is on the text itself.
-/
namespace Stencil.Text

/-- What follows `start` in a text that begins with it. -/
def strip? : List Char → List Char → Option (List Char)
  | [], text => some text
  | _ :: _, [] => none
  | p :: ps, c :: cs => if p = c then strip? ps cs else none

/-- Whether `part` occurs in a text. -/
def contains (part : List Char) : List Char → Bool
  | [] => part.isEmpty
  | c :: cs => part.isPrefixOf (c :: cs) || contains part cs

/-- Replacement of a nonempty `part`; `skip` characters belong to the match just replaced. -/
def replaceFrom (part new : List Char) : Nat → List Char → List Char
  | _, [] => []
  | skip + 1, _ :: cs => replaceFrom part new skip cs
  | 0, c :: cs =>
    if part.isPrefixOf (c :: cs) then new ++ replaceFrom part new (part.length - 1) cs
    else c :: replaceFrom part new 0 cs

/-- Replaces every occurrence of `part`.  The empty part occurs before every character and at
the end. -/
def replace (part new text : List Char) : List Char :=
  match part with
  | [] => new ++ text.flatMap (fun c => c :: new)
  | _ :: _ => replaceFrom part new 0 text

/-- The pieces of a text between the occurrences of a nonempty `part`. -/
def splitFrom (part : List Char) : Nat → List Char → List (List Char)
  | _, [] => [[]]
  | skip + 1, _ :: cs => splitFrom part skip cs
  | 0, c :: cs =>
    if part.isPrefixOf (c :: cs) then [] :: splitFrom part (part.length - 1) cs
    else
      match splitFrom part 0 cs with
      | piece :: rest => (c :: piece) :: rest
      | [] => [[c]]

/-- The pieces of a text between the occurrences of `part`.  The empty part occurs before every
character and at the end. -/
def split (part text : List Char) : List (List Char) :=
  match part with
  | [] => [] :: text.map (fun c => [c]) ++ [[]]
  | _ :: _ => splitFrom part 0 text

/-- The text in front of the first `sep` and the text behind it. -/
def splitOnce? (sep : Char) : List Char → Option (List Char × List Char)
  | [] => none
  | c :: cs =>
    if c = sep then some ([], cs)
    else (splitOnce? sep cs).map fun halves => (c :: halves.1, halves.2)

/-- Removes a nonempty `part` from the start as often as it stands there; `skip` characters
belong to the occurrence just removed and `rest` is the text behind the last whole one. -/
def dropRepeatedFrom (part : List Char) : Nat → List Char → List Char
  | _, [] => []
  | skip + 1, _ :: cs => dropRepeatedFrom part skip cs
  | 0, c :: cs =>
    if part.isPrefixOf (c :: cs) then dropRepeatedFrom part (part.length - 1) cs else c :: cs

/-- Removes `part` from the start as often as it stands there. -/
def dropRepeated (part text : List Char) : List Char :=
  match part with
  | [] => text
  | _ :: _ => dropRepeatedFrom part 0 text

/-- Removes `part` from the end as often as it stands there. -/
def dropRepeatedEnd (part text : List Char) : List Char :=
  (dropRepeated part.reverse text.reverse).reverse

end Stencil.Text
