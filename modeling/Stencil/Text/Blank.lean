/-
White space.

One character class serves the whole library: the characters with the Unicode property
`White_Space`.  Names in partial tags end at the first of them, and trimming removes them.
The class is wider than the ASCII one of `Char.isWhitespace`; it holds the ideographic space
and the no-break spaces, and it does not hold the zero-width space.
-/
namespace Stencil.Text

/-- The characters with the Unicode property `White_Space`. -/
def isBlank (c : Char) : Bool :=
  let n := c.toNat
  (0x09 ≤ n && n ≤ 0x0D) || n == 0x20 || n == 0x85 || n == 0xA0 || n == 0x1680 ||
    (0x2000 ≤ n && n ≤ 0x200A) || n == 0x2028 || n == 0x2029 || n == 0x202F ||
    n == 0x205F || n == 0x3000

/-- Removes white space at the start. -/
def trimStart (s : List Char) : List Char := s.dropWhile isBlank

/-- Removes white space at the end. -/
def trimEnd (s : List Char) : List Char := (s.reverse.dropWhile isBlank).reverse

/-- Removes white space at both ends. -/
def trim (s : List Char) : List Char := trimEnd (trimStart s)

/-- The maximal runs of characters that are not white space. -/
def words : List Char → List (List Char)
  | [] => []
  | c :: cs =>
    if isBlank c then words cs
    else
      match cs, words cs with
      | [], _ => [[c]]
      | d :: _, found =>
        if isBlank d then [c] :: found
        else
          match found with
          | w :: rest => (c :: w) :: rest
          | [] => [[c]]

end Stencil.Text
