/-
Fetching texts.

The memory store counts every fetch of an address, whether there is a text or not.  Files are
read where the file system has them, and nothing is fetched from the web.
-/
import Stencil.Error
import Stencil.Files.Tree
import Stencil.Store.Place
import Stencil.Store.Url

namespace Stencil

/-- Texts kept in memory under normal paths, and the number of fetches of each address. -/
structure Shelf where
  texts : Dict String := []
  fetches : Dict Nat := []

namespace Shelf

/-- Adds or replaces the text under a path. -/
def put (path text : String) (s : Shelf) : Shelf :=
  { s with texts := s.texts.insert (Path.normalize path) text }

/-- How often an address was fetched. -/
def count (s : Shelf) (address : String) : Nat := (s.fetches.get? address).getD 0

/-- How often anything was fetched. -/
def total (s : Shelf) : Nat := s.fetches.foldl (fun total entry => total + entry.2) 0

/-- Counts a fetch. -/
def tick (address : String) (s : Shelf) : Shelf :=
  { s with fetches := s.fetches.insert address (s.count address + 1) }

end Shelf

/-- A store of texts. -/
inductive TextStore where
  | memory (shelf : Shelf)
  /-- The files below a directory. -/
  | directory (root : String)
  /-- The pages below an address of the web. -/
  | web (base : String)

namespace TextStore

/-- The place that a store fetches from. -/
def place : TextStore → Place
  | memory _ => .memory
  | directory root => .directory root
  | web base => .web base

/-- The texts that a store keeps in memory. -/
def shelf : TextStore → Shelf
  | memory shelf => shelf
  | _ => {}

/-- The text at an address, and the store after the fetch. -/
def fetch (files : FileSystem) (store : TextStore) (address : String) :
    Except Error String × TextStore :=
  match store with
  | memory shelf =>
    let outcome :=
      match shelf.texts.get? address with
      | some text => .ok text
      | none => .error (.fetch address "no such template")
    (outcome, memory (shelf.tick address))
  | directory _ =>
    match files.readText address with
    | .ok text => (.ok text, store)
    | .error fault => (.error (.fetch address fault.message), store)
  | web _ => (.error (.fetch address (Url.refuse address.toList).message), store)

end TextStore

end Stencil
