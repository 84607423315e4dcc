/-
Edit distance.

The distance of two texts is the least number of characters to insert, delete or replace that
turns one into the other.
-/
namespace Stencil.Text

/-- The next row of the table of distances: `c` is the new character of the one text, `left`
the entry just written, and the list pairs the characters of the other text with the entry
above each and the one before that. -/
def nextEntries (c : Char) : (left : Nat) → List (Char × Nat × Nat) → List Nat
  | _, [] => []
  | left, (d, corner, above) :: rest =>
    let entry := min (min (left + 1) (above + 1)) (if c = d then corner else corner + 1)
    entry :: nextEntries c entry rest

/-- The row of distances of a longer text to all starts of `target`. -/
def nextRow (target : List Char) (row : List Nat) (c : Char) : List Nat :=
  match row with
  | [] => []
  | first :: above =>
    let entries := target.zip (row.zip above)
    (first + 1) :: nextEntries c (first + 1) entries

/-- The number of edits between two texts. -/
def editDistance (source target : List Char) : Nat :=
  (source.foldl (nextRow target) (List.range (target.length + 1))).getLast?.getD 0

end Stencil.Text
