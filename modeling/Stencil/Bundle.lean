/-
Bundles.

A bundle holds the definitions of modules and makes the modules themselves on demand.
Definitions are found under canonical identifiers, in which the name behind the plugin is in
normal form.  A definition can be replaced, but a module that was made stays.
-/
import Stencil.Build.Definition
import Stencil.Cache
import Stencil.Module
import Stencil.Path
import Stencil.Text.Distance

namespace Stencil

/-- Definitions by canonical identifiers, and the modules made from them so far. -/
structure Bundle where
  definitions : Dict ModuleDefinition := []
  cache : Cache Module := {}
  /-- The number of modules made so far. -/
  made : Nat := 0

/-- An activity of a bundle.  What was done before an error stays done. -/
abbrev Bundling := ExceptT Error (StateM Bundle)

/-- The canonical form of a module identifier. -/
def canonicalModuleId (id : String) : String :=
  match Text.splitOnce? pluginSeparator id.toList with
  | some (plugin, name) => moduleId (String.ofList plugin) (Path.normalize (String.ofList name))
  | none => Path.normalize id

namespace Bundle

/-- Adds a definition in place of one with the same identifier, and returns the identifier. -/
def insert (d : ModuleDefinition) (b : Bundle) : String × Bundle :=
  let id := canonicalModuleId d.id
  (id, { b with definitions := b.definitions.insert id d })

/-- Reads the text of a module and adds its definition. -/
def add (text : String) : Bundling String := do
  match ModuleDefinition.ofText text with
  | .ok d => modifyGet (insert d)
  | .error e => throw e

/-- Whether there is a definition for an identifier. -/
def contains (b : Bundle) (id : String) : Bool := b.definitions.hasKey (canonicalModuleId id)

/-- The canonical identifiers, in ascending order. -/
def ids (b : Bundle) : List String := b.definitions.keys

/-- The greatest number of identifiers that are suggested. -/
def maxSuggestions : Nat := 3

/-- How far a suggestion may be from what was asked for, as a percentage of its length. -/
def tolerance : Nat := 50

/-- Whether one candidate is to be suggested before another. -/
def closer (a b : Nat × String) : Bool := a.1 < b.1 || (a.1 == b.1 && a.2 ≤ b.2)

/-- The identifiers most similar to one that is not there, the closest first. -/
def suggestions (b : Bundle) (id : String) : List String :=
  let scored := b.ids.map fun known => (Text.editDistance id.toList known.toList, known)
  let near := (scored.mergeSort closer).filter fun candidate =>
    decide (candidate.1 ≤ id.utf8ByteSize * tolerance / 100)
  (near.take maxSuggestions).map Prod.snd

/-- Looks a module up among those made so far. -/
def cached? (key : String) : Bundling (Option Module) :=
  modifyGet fun b =>
    let (found, cache) := b.cache.find key
    (found, { b with cache := cache })

/-- The definition under a canonical identifier; `id` is how it was asked for. -/
def definition (id key : String) : Bundling ModuleDefinition := do
  let b ← get
  match b.definitions.get? key with
  | some d => return d
  | none => throw (.moduleNotFound id (b.suggestions key))

/-- Makes the module of a definition and keeps it. -/
def keep (key : String) (d : ModuleDefinition) (found : List Module) : Bundling Module := do
  match d.bind found >>= d.instantiate with
  | .error e => throw e
  | .ok (template, partials) =>
    modifyGet fun b =>
      let (m, cache) := b.cache.keep key (.mk b.made template partials)
      (m, { b with cache := cache, made := b.made + 1 })

/-- Loads a module on the way down from those in `chain`.  `room` bounds the number of
levels. -/
def loadBelow : (room : Nat) → (chain : List String) → (id : String) → Bundling Module
  | 0, _, _ => throw (.other "Modules are nested without end")
  | room + 1, chain, id => do
    let key := canonicalModuleId id
    if key ∈ chain then throw (.circularPartial (chain ++ [key]))
    match ← cached? key with
    | some m => return m
    | none =>
      let d ← definition id key
      let found ← d.dependencyIds.mapM (loadBelow room (chain ++ [key]))
      keep key d found

/-- Loads a module with its dependencies.  Every module on a chain has a definition of its own,
so the number of definitions bounds the number of levels. -/
def load (id : String) : Bundling Module := do
  loadBelow ((← get).definitions.length + 2) [] id

/-- Loads several modules, one after another. -/
def loadAll (ids : List String) : Bundling (List Module) := ids.mapM load

end Bundle

end Stencil
