/-
Where texts are kept.

A store keeps texts under addresses.  The address of a fetch path is its normal form, placed
below a directory or below the base of a web site where the texts are there.
-/
import Stencil.Path

namespace Stencil

/-- A place that texts are fetched from. -/
inductive Place where
  | memory
  /-- The files below a directory. -/
  | directory (root : String)
  /-- The pages below an address of the web. -/
  | web (base : String)
deriving DecidableEq, Repr

/-- A text without the slashes at its end. -/
def Path.withoutEndSlashes (path : List Char) : List Char :=
  (path.reverse.dropWhile (· = '/')).reverse

/-- The address of a fetch path. -/
def Place.address (place : Place) (path : String) : String :=
  let normal := Path.normalizeChars path.toList
  match place with
  | memory => String.ofList normal
  | directory root => String.ofList (Path.joinChars root.toList (Path.relativeChars normal))
  | web base =>
    String.ofList (Path.withoutEndSlashes base.toList ++ '/' :: Path.relativeChars normal)

end Stencil
