/-
Slash-separated paths.

Template names, the identifiers of modules and the addresses of files are all paths of
segments between slashes.  `normalize` walks a path from its start and resolves the segments
`.` and `..`; it never consults a file system.  A path that climbs above its start keeps its
leading `..` segments when it is relative, and loses them when it is absolute, since the root
has no parent.
-/
import Stencil.Text.Search

namespace Stencil.Path

/-- The text between two slashes. -/
abbrev Segment := List Char

/-- The segment that stays where it is. -/
def here : Segment := ['.']

/-- The segment that goes to the parent. -/
def parent : Segment := ['.', '.']

/-- The segments of a path, the empty ones between adjacent slashes included. -/
def segments : List Char → List Segment
  | [] => [[]]
  | c :: cs =>
    if c = '/' then [] :: segments cs
    else
      match segments cs with
      | [] => [[c]]
      | first :: rest => (c :: first) :: rest

/-- Segments with a slash between each two. -/
def joinSegments : List Segment → List Char
  | [] => []
  | [last] => last
  | first :: rest => first ++ '/' :: joinSegments rest

/-- Whether a path starts at the root. -/
def isAbsolute (path : List Char) : Bool := path.head? == some '/'

/-- Walks one segment further.  The location is the list of the segments walked so far, the
last one first. -/
def step (absolute : Bool) (location : List Segment) (segment : Segment) : List Segment :=
  if segment = [] ∨ segment = here then location
  else if segment = parent then
    match location with
    | last :: above =>
      if last ≠ parent then above else if absolute then location else parent :: location
    | [] => if absolute then [] else [parent]
  else segment :: location

/-- Walks a list of segments from the start of a path. -/
def walk (absolute : Bool) (path : List Segment) : List Segment :=
  (path.foldl (step absolute) []).reverse

/-- The path that consists of the given segments, from the root or not. -/
def ofSegments (absolute : Bool) (path : List Segment) : List Char :=
  if absolute then '/' :: joinSegments path else joinSegments path

/-- The normal form of a path: no empty segment, no `.`, and `..` only at the start of a
relative path. -/
def normalizeChars (path : List Char) : List Char :=
  ofSegments (isAbsolute path) (walk (isAbsolute path) (segments path))

/-- The normal form of a path: no empty segment, no `.`, and `..` only at the start of a
relative path. -/
def normalize (path : String) : String := String.ofList (normalizeChars path.toList)

/-- A path without the slashes at its start. -/
def relativeChars (path : List Char) : List Char := path.dropWhile (· = '/')

/-- The part of a path up to its last slash, that slash included. -/
def baseChars (path : List Char) : List Char :=
  (path.reverse.dropWhile (· ≠ '/')).reverse

/-- The part of a path up to its last slash, that slash included. -/
def base (path : String) : String := String.ofList (baseChars path.toList)

/-- A path below a directory: an absolute path stands for itself, and otherwise exactly one
slash is put between the two unless the directory is empty or ends with one. -/
def joinChars (directory path : List Char) : List Char :=
  if isAbsolute path then path
  else if directory = [] ∨ directory.getLast? = some '/' then directory ++ path
  else directory ++ '/' :: path

/-- A path below a directory. -/
def join (directory path : String) : String :=
  String.ofList (joinChars directory.toList path.toList)

end Stencil.Path
