/-
Lines and indentation.

A text is cut into lines that keep their terminators, so that joining the lines gives the text
back.  Indentation puts a string in front of every line that is more than its terminator.
-/
namespace Stencil.Text

/-- The lines of a text, each with the line feed that ends it.  Only the last line can lack
one, and no line is empty. -/
def lines : List Char → List (List Char)
  | [] => []
  | c :: cs =>
    if c = '\n' then ['\n'] :: lines cs
    else
      match lines cs with
      | [] => [[c]]
      | line :: rest => (c :: line) :: rest

/-- Whether a line is nothing but its terminator. -/
def isBareLine (line : List Char) : Bool :=
  line == ['\n'] || line == ['\r', '\n']

/-- One line, indented unless it is bare. -/
def indentLine (indent line : List Char) : List Char :=
  if isBareLine line then line else indent ++ line

/-- Indents every line of a text that is not bare. -/
def indentLines (indent text : List Char) : List Char :=
  (lines text).flatMap (indentLine indent)

/-- The number of the line on which a position stands, counted from one, where `before` is
the text in front of the position. -/
def lineNumber (before : List Char) : Nat := before.count '\n' + 1

end Stencil.Text
