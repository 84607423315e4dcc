/-
Partial tags.

A template names a partial with a tag such as `{{> header }}`.  The name may hold any character
but white space, `}` and `"`, and white space may stand around it.  A text falls into pieces in
exactly one way: at every place either a tag starts there and is one piece, or the character
there is a piece of its own.
-/
import Stencil.Text.Blank
import Stencil.Text.Search

namespace Stencil

/-- A part of a template: an ordinary character, or a tag. -/
inductive Piece where
  | char (c : Char)
  | tag (name : String)
deriving DecidableEq, Repr

namespace Piece

/-- What a tag starts with. -/
def opening : List Char := ['{', '{', '>']

/-- What a tag ends with. -/
def closing : List Char := ['}', '}']

/-- Whether a character can stand in the name of a partial. -/
def isNameChar (c : Char) : Bool := !Text.isBlank c && c != '}' && c != '"'

/-- The tag at the start of a text: its name and the text behind it. -/
def tag? (text : List Char) : Option (List Char × List Char) := do
  let inside := (← Text.strip? opening text).dropWhile Text.isBlank
  let name := inside.takeWhile isNameChar
  let rest ← Text.strip? closing ((inside.dropWhile isNameChar).dropWhile Text.isBlank)
  if name.isEmpty then none else some (name, rest)

/-- The pieces of a text, of which the first `skip` characters belong to a tag already
found. -/
def scan : (skip : Nat) → List Char → List Piece
  | _, [] => []
  | skip + 1, _ :: cs => scan skip cs
  | 0, c :: cs =>
    match tag? (c :: cs) with
    | some (name, rest) => tag (String.ofList name) :: scan (cs.length - rest.length) cs
    | none => char c :: scan 0 cs

/-- The pieces of a text. -/
def ofText (text : String) : List Piece := scan 0 text.toList

/-- The name of a tag. -/
def name? : Piece → Option String
  | char _ => none
  | tag name => some name

/-- The names of the tags among some pieces, in order and with repetitions. -/
def names (pieces : List Piece) : List String := pieces.filterMap name?

/-- A text with every tag written anew. -/
def write (tagText : String → List Char) (pieces : List Piece) : List Char :=
  pieces.flatMap fun
    | char c => [c]
    | tag name => tagText name

/-- The normal form of a tag, with a single space in front of the name. -/
def normalTag (name : String) : List Char := opening ++ ' ' :: name.toList ++ closing

/-- The text without its tags. -/
def withoutTags (pieces : List Piece) : String := String.ofList (write (fun _ => []) pieces)

/-- The text with every tag in its normal form. -/
def normalText (pieces : List Piece) : String := String.ofList (write normalTag pieces)

end Piece

end Stencil
