/-
Loaders.

A loader turns the name of a template into a module.  The name is brought into normal form; a
module that was made before is returned again, and otherwise the text is fetched and compiled,
the partials are loaded in the order of their references, and the module is kept.  A template
that is being loaded must not be met again on the way down, which the chain of keys shows.

Text that was fetched once is never fetched again, even when the modules are forgotten.  A
failed fetch leaves nothing behind.
-/
import Stencil.Build.Session
import Stencil.Cache
import Stencil.Dependencies
import Stencil.Module
import Stencil.Store.Texts

namespace Stencil

/-- A template that was fetched and compiled, and the references to its partials. -/
structure Source where
  template : Template
  references : List Reference

/-- A loader and everything it remembers. -/
structure Loader where
  config : Config
  store : TextStore
  /-- The modules made so far. -/
  cache : Cache Module := {}
  /-- The templates fetched so far. -/
  sources : Dict Source := []
  /-- Whether the templates that are fetched are recorded for a build. -/
  recording : Bool := false
  session : BuildSession := []
  /-- The number of modules made so far, forgotten ones included. -/
  made : Nat := 0

/-- An activity of a loader.  What was done before an error stays done. -/
abbrev Loading := ExceptT Error (StateM Loader)

namespace Loader

/-- A loader for a configuration that is in order. -/
def ofConfig (config : Config) (store : TextStore) (recording : Bool) : Except Error Loader := do
  config.check
  return { config := config, store := store, recording := recording }

/-- The address of the text of a template. -/
def address (l : Loader) (key : String) : String :=
  l.store.place.address (l.config.fetchPath key)

/-- Looks a module up among those made so far, and counts the look-up. -/
def cached? (key : String) : Loading (Option Module) :=
  modifyGet fun l =>
    let (found, cache) := l.cache.find key
    (found, { l with cache := cache })

/-- Fetches a text. -/
def fetch (files : FileSystem) (address : String) : Loading String := do
  let outcome ← modifyGet fun l =>
    let (outcome, store) := l.store.fetch files address
    (outcome, { l with store := store })
  match outcome with
  | .ok text => return text
  | .error e => throw e

/-- Remembers a template that was fetched, and records it for a build. -/
def remember (key : String) (source : Source) (l : Loader) : Loader :=
  let record := BuildRecord.ofTemplate key source.template source.references
  { l with
    sources := l.sources.insert key source
    session := if l.recording then (BuildSession.record record l.session).2 else l.session }

/-- The template under a key, fetched unless it was fetched before. -/
def source (files : FileSystem) (key : String) : Loading Source := do
  let l ← get
  match l.sources.get? key with
  | some source => return source
  | none =>
    let text ← fetch files (l.address key)
    match Template.compile key text l.config.options with
    | .error e => throw e
    | .ok template =>
      let context := ResolutionContext.ofTemplate l.config key
      let source : Source := ⟨template, resolvePartials context template.tags⟩
      modify (remember key source)
      return source

/-- Makes a module and keeps it. -/
def keep (key : String) (template : Template) (partials : Dict Module) : Loading Module :=
  modifyGet fun l =>
    let (m, cache) := l.cache.keep key (.mk l.made template partials)
    (m, { l with cache := cache, made := l.made + 1 })

/-- An activity that may go on without end. -/
abbrev Descending := ExceptT Error (StateT Loader Option)

instance : MonadLift Loading Descending where
  monadLift act := fun l => some (act.run.run l)

/-- Loads a template on the way down from those in `chain`.  There is no outcome if the way down
goes on without end. -/
def loadBelow (files : FileSystem) (chain : List String) (name : String) (l : Loader) :
    Option (Except Error Module × Loader) :=
  let act : Descending Module := do
    let key := Path.normalize name
    if key ∈ chain then throw (.circularPartial (chain ++ [key]))
    match ← cached? key with
    | some m => return m
    | none =>
      let source ← source files key
      let found ← (source.references.map (·.canonicalId)).mapM fun id =>
        show Descending Module from fun l => l |>.loadBelow files (chain ++ [key]) id
      let partials ← bindResults key source.references found
      keep key source.template partials
  act.run.run l
partial_fixpoint

/-- What stands for a load that goes on without end. -/
def endless : Error := .other "Partials are nested without end"

/-- Loads a template with all its partials. -/
def load (files : FileSystem) (name : String) : Loading Module := fun l =>
  (loadBelow files [] name l).getD (.error endless, l)

/-- Loads several templates, one after another. -/
def loadAll (files : FileSystem) (names : List String) : Loading (List Module) :=
  names.mapM (load files)

/-- Forgets the modules made so far, but not the templates fetched. -/
def forget (l : Loader) : Loader := { l with cache := {} }

end Loader

end Stencil
