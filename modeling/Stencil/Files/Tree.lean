/-
File trees.

A file system is a tree of directories and files and a place in it from which relative paths
are followed.  A path is followed segment by segment, so every directory that it passes through
has to be there, even one that it leaves again.
-/
import Stencil.Dict
import Stencil.Files.Fault
import Stencil.Path

namespace Stencil

/-- A file with its bytes, or a directory with its entries in the order of their names. -/
inductive FileTree where
  | file (content : ByteArray)
  | directory (entries : List (String × FileTree))

namespace FileTree

/-- Whether a tree is a directory. -/
def isDirectory : FileTree → Bool
  | file _ => false
  | directory _ => true

/-- The entries of a directory. -/
def entries : FileTree → Dict FileTree
  | file _ => []
  | directory entries => entries

/-- The tree that a row of names leads to. -/
def at? (t : FileTree) : List String → Option FileTree
  | [] => some t
  | name :: rest =>
    match t.entries.get? name with
    | some below => below.at? rest
    | none => none

/-- Puts a tree where a row of names leads to; directories on the way are made as needed. -/
def put (new : FileTree) : List String → FileTree → FileTree
  | [], _ => new
  | name :: rest, t =>
    let below := (t.entries.get? name).getD (directory [])
    directory (t.entries.insert name (put new rest below))

mutual

/-- A number that grows with every name and every byte of a tree. -/
def size : FileTree → Nat
  | file content => content.size + 1
  | directory entries => sizes entries + 1

/-- The sum of the sizes of entries and of their names. -/
def sizes : List (String × FileTree) → Nat
  | [] => 0
  | (name, t) :: rest => name.length + t.size + sizes rest

end

end FileTree

/-- A file tree and the names that lead to the working directory. -/
structure FileSystem where
  root : FileTree
  workDir : List String

namespace FileSystem

open Stencil.Path (Segment segments)

/-- The longest name, in bytes. -/
def maxName : Nat := 255

/-- The longest path, in bytes. -/
def maxPath : Nat := 4095

/-- A file system with an empty working directory. -/
def empty : FileSystem where
  root := FileTree.put (.directory []) ["tmp", "work"] (.directory [])
  workDir := ["tmp", "work"]

/-- What a row of names leads to. -/
def at? (fs : FileSystem) (names : List String) : Option FileTree := fs.root.at? names

/-- Whether a row of names leads to a directory. -/
def isDirectoryAt (fs : FileSystem) (names : List String) : Bool :=
  ((fs.at? names).map FileTree.isDirectory).getD false

/-- Refuses a name that is too long. -/
def checkName (name : Segment) : Except FileFault String :=
  let name := String.ofList name
  if maxName < name.utf8ByteSize then .error .nameTooLong else .ok name

/-- Follows one segment from a place. -/
def follow (fs : FileSystem) (place : List String) (segment : Segment) :
    Except FileFault (List String) :=
  if !fs.isDirectoryAt place then .error .notADirectory
  else if segment = [] ∨ segment = Path.here then .ok place
  else if segment = Path.parent then .ok place.dropLast
  else do
    let below := place ++ [← checkName segment]
    if (fs.at? below).isSome then return below else throw .notFound

/-- Refuses a path that the system cannot be asked about. -/
def checkPath (path : String) : Except FileFault Unit :=
  if path.toList.contains '\x00' then .error .nulInPath
  else if path.isEmpty then .error .notFound
  else if maxPath < path.utf8ByteSize then .error .nameTooLong
  else .ok ()

/-- Where a path starts. -/
def startOf (fs : FileSystem) (path : String) : List String :=
  if Path.isAbsolute path.toList then [] else fs.workDir

/-- The place that a path leads to. -/
def locate (fs : FileSystem) (path : String) : Except FileFault (List String) := do
  checkPath path
  (segments path.toList).foldlM fs.follow (fs.startOf path)

/-- What a path leads to. -/
def find (fs : FileSystem) (path : String) : Except FileFault FileTree := do
  match fs.at? (← fs.locate path) with
  | some t => return t
  | none => throw .notFound

/-- Whether a path leads to anything. -/
def holds (fs : FileSystem) (path : String) : Bool := (fs.find path).toBool

/-- Whether a path leads to a directory. -/
def isDirectory (fs : FileSystem) (path : String) : Bool :=
  match fs.find path with
  | .ok t => t.isDirectory
  | .error _ => false

/-- The text of a file. -/
def readText (fs : FileSystem) (path : String) : Except FileFault String := do
  match ← fs.find path with
  | .directory _ => throw .isADirectory
  | .file content =>
    match String.fromUTF8? content with
    | some text => return text
    | none => throw .notText

/-- The segments of a path without the slashes at its end. -/
def nameSegments (path : String) : List Segment :=
  ((segments path.toList).reverse.dropWhile (· = [])).reverse

/-- The directory in which the last segment of a path stands, and that segment. -/
def locateParent (fs : FileSystem) (path : String) :
    Except FileFault (List String × Segment) := do
  checkPath path
  let names := nameSegments path
  let place ← names.dropLast.foldlM fs.follow (fs.startOf path)
  return (place, names.getLast?.getD Path.here)

/-- Makes one directory. -/
def makeDirectory (fs : FileSystem) (path : String) : Except FileFault FileSystem := do
  let (place, segment) ← fs.locateParent path
  if !fs.isDirectoryAt place then throw .notADirectory
  if segment = Path.here ∨ segment = Path.parent then throw .alreadyExists
  let below := place ++ [← checkName segment]
  if (fs.at? below).isSome then throw .alreadyExists
  return { fs with root := FileTree.put (.directory []) below fs.root }

/-- The path of the directory in which a path ends; none for a path without names. -/
def parentPath? (path : String) : Option String :=
  let chars := path.toList
  let all := segments chars
  let isName (s : Segment) : Bool := s ≠ [] ∧ s ≠ Path.here
  let kept := match all with
    | first :: rest => (if first = [] then [] else [first]) ++ rest.filter isName
    | [] => []
  match kept with
  | [] => none
  | kept => some (String.ofList (Path.ofSegments (Path.isAbsolute chars) kept.dropLast))

/-- Makes a directory and the ones above it as needed; `fuel` bounds their number.  What was made
before a fault stays. -/
def makeDirectoriesFrom : (fuel : Nat) → FileSystem → String → Except FileFault Unit × FileSystem
  | 0, fs, _ => (.ok (), fs)
  | fuel + 1, fs, path =>
    if path.isEmpty then (.ok (), fs)
    else
      match fs.makeDirectory path with
      | .ok fs => (.ok (), fs)
      | .error .notFound =>
        match parentPath? path with
        | none => (.error .notFound, fs)
        | some above =>
          match makeDirectoriesFrom fuel fs above with
          | (.error fault, fs) => (.error fault, fs)
          | (.ok (), fs) =>
            match fs.makeDirectory path with
            | .ok fs => (.ok (), fs)
            | .error fault => (if fs.isDirectory path then .ok () else .error fault, fs)
      | .error fault => (if fs.isDirectory path then .ok () else .error fault, fs)

/-- Makes a directory and the ones above it as needed. -/
def makeDirectories (fs : FileSystem) (path : String) : Except FileFault Unit × FileSystem :=
  makeDirectoriesFrom (path.length + 1) fs path

/-- Makes the directories above a path as needed. -/
def makeParents (fs : FileSystem) (path : String) : Except FileFault Unit × FileSystem :=
  match parentPath? path with
  | some above => fs.makeDirectories above
  | none => (.ok (), fs)

/-- Writes a file into a directory that is there. -/
def write (fs : FileSystem) (path : String) (content : ByteArray) :
    Except FileFault FileSystem := do
  let (place, segment) ← fs.locateParent path
  if !fs.isDirectoryAt place then throw .notADirectory
  let endsInName := path.toList.getLast? ≠ some '/'
  if !endsInName ∨ segment = Path.here ∨ segment = Path.parent then throw .isADirectory
  let below := place ++ [← checkName segment]
  match fs.at? below with
  | some (.directory _) => throw .isADirectory
  | _ => return { fs with root := FileTree.put (.file content) below fs.root }

/-- Writes a text into a directory that is there. -/
def writeText (fs : FileSystem) (path text : String) : Except FileFault FileSystem :=
  fs.write path text.toUTF8

mutual

/-- The files below a directory, each with the path that leads to it. -/
def filesIn (above : String) : List (String × FileTree) → List (String × ByteArray)
  | [] => []
  | (name, t) :: rest => filesAt (above ++ name) t ++ filesIn above rest

/-- The files of a tree at a path. -/
def filesAt (path : String) : FileTree → List (String × ByteArray)
  | .file content => [(path, content)]
  | .directory entries => filesIn (path ++ "/") entries

end

/-- All files below a directory, by their paths from there; none if there is no directory. -/
def filesBelow (fs : FileSystem) (path : String) : List (String × ByteArray) :=
  match fs.find path with
  | .ok (.directory entries) => filesIn "" entries
  | _ => []

/-- Whether a file with a given content is at a path. -/
def hasFile (fs : FileSystem) (path : String) (content : ByteArray) : Bool :=
  match fs.find path with
  | .ok (.file present) => present == content
  | _ => false

/-- The files that are new or have another content than before, by their paths. -/
def changesSince (fs before : FileSystem) : List (String × ByteArray) :=
  (fs.filesBelow "/").filterMap fun file =>
    let path := "/" ++ file.1
    if before.hasFile path file.2 then none else some (path, file.2)

end FileSystem

end Stencil
