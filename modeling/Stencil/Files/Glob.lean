/-
Finding files by pattern.

A pattern with slashes is matched segment by segment from the working directory or from the
root.  A segment without special parts is looked up, any other is compared with the names in
the directory, in ascending order.  What is found is named by the path on which it was found.
-/
import Stencil.Files.Pattern
import Stencil.Files.Tree

namespace Stencil

namespace Path

/-- The segments of a path that count when it is compared with another one: a leading `.` does,
all other segments that name nothing do not. -/
def significant (path : List Char) : List Segment :=
  match segments path with
  | first :: rest =>
    (if first = [] then [] else [first]) ++ rest.filter fun s => s ≠ [] ∧ s ≠ here
  | [] => []

end Path

namespace FileSystem

/-- The names in a directory, in ascending order. -/
def namesIn (fs : FileSystem) (path : String) : List String :=
  match fs.find path with
  | .ok t => t.entries.keys
  | .error _ => []

/-- The path of an entry; a path that starts in the working directory does not name it. -/
def entryPath (path name : String) : String :=
  if Path.significant path.toList = [Path.here] then name else Path.join path name

/-- The last name of a path, if it names anything but a parent. -/
def lastName? (path : String) : Option (List Char) :=
  match ((Path.segments path.toList).filter fun s => s ≠ [] ∧ s ≠ Path.here).getLast? with
  | some segment => if segment = Path.parent then none else some segment
  | none => none

/-- The segments `.` and `..`. -/
def dots : List (List Char) := [Path.here, Path.parent]

mutual

/-- What the segments of a pattern lead to from a directory, which the first of them is matched
in; `fuel` bounds the number of steps. -/
def globIn (fs : FileSystem) : (fuel : Nat) → List Pattern → String → List String
  | 0, _, _ => []
  | _ + 1, [], _ => []
  | fuel + 1, segment :: rest, path =>
    match segment.literal? with
    | some name =>
      let below := entryPath path (String.ofList name)
      let found := if name ∈ dots then fs.isDirectory path else fs.holds below
      if found then globThrough fs fuel rest below else []
    | none =>
      if !fs.isDirectory path then []
      else
        let special :=
          if segment.head? = some (.char '.') then
            (dots.reverse.filter segment.isMatch).flatMap fun name =>
              globThrough fs fuel rest (Path.join path (String.ofList name))
          else []
        special ++ (fs.namesIn path).flatMap fun name =>
          globAt fs fuel (segment :: rest) (entryPath path name)

/-- What follows from a path that the segments up to `rest` lead to. -/
def globThrough (fs : FileSystem) : (fuel : Nat) → List Pattern → String → List String
  | 0, _, _ => []
  | _ + 1, [], path => [path]
  | fuel + 1, rest, path => globIn fs fuel rest path

/-- What the segments of a pattern lead to from a path, whose last name is matched against the
first of them. -/
def globAt (fs : FileSystem) : (fuel : Nat) → List Pattern → String → List String
  | 0, _, _ => []
  | _ + 1, [], _ => []
  | fuel + 1, segment :: rest, path =>
    if segment.isDirectories then
      let rest := rest.dropWhile Pattern.isDirectories
      let below :=
        if fs.isDirectory path then globIn fs fuel (segment :: rest) path else []
      match rest with
      | [] => if fs.isDirectory path then path :: below else []
      | rest => globAt fs fuel rest path ++ below
    else
      match lastName? path with
      | none => []
      | some name => if segment.isMatch name then globThrough fs fuel rest path else []

end

/-- The pieces of a text between slashes, without an empty one at the end. -/
def patternSegments (text : List Char) : List (List Char) :=
  let all := Path.segments text
  if all.getLast? = some [] then all.dropLast else all

/-- The paths that match a pattern.  Where the pattern ends in a slash they are directories. -/
def glob (fs : FileSystem) (pattern : String) : Except PatternFault (List String) := do
  let _ ← Pattern.ofText pattern
  let chars := pattern.toList
  let absolute := Path.isAbsolute chars
  let body := if absolute then chars.drop 1 else chars
  let segments ← (patternSegments body).mapM fun s => Pattern.ofText (String.ofList s)
  let start := if absolute then "/" else "."
  let found := globIn fs (4 * (fs.root.size + segments.length + 2)) segments start
  return if chars.getLast? = some '/' then found.filter fs.isDirectory else found

end FileSystem

namespace Path

/-- The segments that name something, behind the leading ones that do not. -/
def dropIdle (path : List Segment) : List Segment :=
  path.dropWhile fun s => s = [] ∨ s = here

/-- What is left of the segments of a path behind those of another one. -/
def behind? : List Segment → List Segment → Option (List Segment)
  | [], path => some path
  | name :: rest, path =>
    match dropIdle path with
    | [] => none
    | first :: more => if first = name then behind? rest more else none

/-- A path relative to a directory that it starts with, segment by segment. -/
def relativeTo? (directory path : String) : Option String :=
  let base := significant directory.toList
  let all := segments path.toList
  if isAbsolute directory.toList ≠ isAbsolute path.toList then
    if base = [] ∧ directory = "" then some path else none
  else if base = [] ∧ !isAbsolute path.toList then some path
  else
    let left? :=
      match base, all with
      | first :: rest, head :: more =>
        if first = here then (if head = here then behind? rest more else none)
        else if head = here then none
        else behind? base all
      | [], _ => behind? [] all
      | _, [] => none
    left?.map fun left =>
      let trimmed := ((dropIdle left).reverse.dropWhile fun s => s = [] ∨ s = here).reverse
      String.ofList (joinSegments trimmed)

end Path

end Stencil
