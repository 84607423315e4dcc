/-
Module definitions.

A definition is what the text of a module says.  A valid one belongs to its plugin, counts its
dependencies from one, and gives each of them a name of its own; then the modules found for the
dependencies can be bound to the names by their places.
-/
import Stencil.Config
import Stencil.Template

namespace Stencil

/-- A dependency of a module: its place among the others, counted from one, the name it is
bound to, and the identifier of the module to load. -/
structure DependencyEntry where
  order : Nat
  name : String
  id : String
deriving DecidableEq, Repr

/-- What the text of a module says. -/
structure ModuleDefinition where
  id : String
  plugin : String
  dependencies : List DependencyEntry := []
  options : Options := {}
  /-- The source of the template. -/
  body : String

namespace DependencyEntry

open Json (Decoder)

/-- The fields of a dependency read so far. -/
structure Fields where
  order : Option Nat := none
  name : Option String := none
  id : Option String := none

/-- Reads one field. -/
def readField : Decoder.FieldReader Fields := fun setting depth s field doc =>
  match field with
  | "order" =>
    some (Decoder.once field s.order Decoder.word
      (fun x => { s with order := some x }) setting depth doc)
  | "name" =>
    some (Decoder.once field s.name Decoder.string
      (fun x => { s with name := some x }) setting depth doc)
  | "id" =>
    some (Decoder.once field s.id Decoder.string
      (fun x => { s with id := some x }) setting depth doc)
  | _ => none

/-- A dependency: an object, or an array of the fields in order. -/
def decode : Decoder DependencyEntry := fun setting depth doc =>
  match doc with
  | .object members stop => do
    Json.enter setting depth
    let s ← Decoder.fields readField setting (depth + 1) {} members
    Decoder.finish stop
    let order ← Decoder.require "order" s.order
    let name ← Decoder.require "name" s.name
    let id ← Decoder.require "id" s.id
    return ⟨order, name, id⟩
  | .array items stop => do
    Json.enter setting depth
    let part {α : Type} (decode : Decoder α) (i : Nat) : Except Json.Mismatch α := do
      match ← Decoder.element decode setting (depth + 1) items stop i with
      | some value => return value
      | none => throw (.wrongLength i "struct DependencyEntry with 3 elements")
    let order ← part Decoder.word 0
    let name ← part Decoder.string 1
    let id ← part Decoder.string 2
    Decoder.finishRecord setting items.length (items.drop 3) stop
    return ⟨order, name, id⟩
  | other => Decoder.reject "struct DependencyEntry" other

end DependencyEntry

namespace ModuleDefinition

open Json (Decoder)

/-- The fields of a definition read so far. -/
structure Fields where
  id : Option String := none
  plugin : Option String := none
  dependencies : Option (List DependencyEntry) := none
  options : Option Options := none
  body : Option String := none

/-- Reads one field. -/
def readField : Decoder.FieldReader Fields := fun setting depth s field doc =>
  match field with
  | "module" =>
    some (Decoder.once field s.id Decoder.string
      (fun x => { s with id := some x }) setting depth doc)
  | "plugin" =>
    some (Decoder.once field s.plugin Decoder.string
      (fun x => { s with plugin := some x }) setting depth doc)
  | "dependencies" =>
    some (Decoder.once field s.dependencies (Decoder.list DependencyEntry.decode)
      (fun x => { s with dependencies := some x }) setting depth doc)
  | "options" =>
    some (Decoder.once field s.options Options.decode
      (fun x => { s with options := some x }) setting depth doc)
  | "template" =>
    some (Decoder.once field s.body Decoder.string
      (fun x => { s with body := some x }) setting depth doc)
  | _ => none

/-- A definition: an object, or an array of the fields in order.  Dependencies and options may
be left out. -/
def decode : Decoder ModuleDefinition := fun setting depth doc =>
  match doc with
  | .object members stop => do
    Json.enter setting depth
    let s ← Decoder.fields readField setting (depth + 1) {} members
    Decoder.finish stop
    let id ← Decoder.require "module" s.id
    let plugin ← Decoder.require "plugin" s.plugin
    let body ← Decoder.require "template" s.body
    return ⟨id, plugin, s.dependencies.getD [], s.options.getD {}, body⟩
  | .array items stop => do
    Json.enter setting depth
    let found? {α : Type} (decode : Decoder α) (i : Nat) : Except Json.Mismatch (Option α) :=
      Decoder.element decode setting (depth + 1) items stop i
    let needed {α : Type} (i : Nat) : Option α → Except Json.Mismatch α
      | some value => .ok value
      | none => .error (.wrongLength i "struct ModuleDefinition with 5 elements")
    let id ← needed 0 (← found? Decoder.string 0)
    let plugin ← needed 1 (← found? Decoder.string 1)
    let dependencies := (← found? (Decoder.list DependencyEntry.decode) 2).getD []
    let options := (← found? Options.decode 3).getD {}
    let body ← needed 4 (← found? Decoder.string 4)
    Decoder.finishRecord setting items.length (items.drop 5) stop
    return ⟨id, plugin, dependencies, options, body⟩
  | other => Decoder.reject "struct ModuleDefinition" other

/-- What the identifiers of a plugin's modules start with. -/
def mark (plugin : String) : String := moduleId plugin ""

/-- The template that a module identifier names for a plugin; none if the identifier is not one
of the plugin's. -/
def templateOf? (plugin id : String) : Option String :=
  (Text.strip? (mark plugin).toList id.toList).map String.ofList

/-- Why a definition contradicts itself. -/
inductive Problem where
  | foreignModule (mark : String)
  | wrongOrder (name : String) (order position : Nat)
  | repeatedName (name : String)
  | foreignDependency (id mark : String)
deriving DecidableEq, Repr

/-- The wording of a problem. -/
def Problem.message : Problem → String
  | foreignModule mark => "module id must start with '" ++ mark ++ "'"
  | wrongOrder name order position =>
    "dependency '" ++ name ++ "' has order " ++ natText order ++ " at position " ++
      natText position
  | repeatedName name => "dependency name '" ++ name ++ "' is declared twice"
  | foreignDependency id mark =>
    "dependency id '" ++ id ++ "' must start with '" ++ mark ++ "'"

/-- The first problem of dependencies, where `position` is the place of the first of them and
`met` are the names in front of it. -/
def dependencyProblem? (plugin : String) (position : Nat) (met : List String) :
    List DependencyEntry → Option Problem
  | [] => none
  | entry :: rest =>
    if entry.order ≠ position then some (.wrongOrder entry.name entry.order position)
    else if entry.name ∈ met then some (.repeatedName entry.name)
    else if (templateOf? plugin entry.id).isNone then
      some (.foreignDependency entry.id (mark plugin))
    else dependencyProblem? plugin (position + 1) (entry.name :: met) rest

/-- The first problem of a definition. -/
def problem? (d : ModuleDefinition) : Option Problem :=
  match templateOf? d.plugin d.id with
  | none | some "" => some (.foreignModule (mark d.plugin))
  | some _ => dependencyProblem? d.plugin 1 [] d.dependencies

/-- Refuses a definition that contradicts itself. -/
def check (d : ModuleDefinition) : Except Error Unit :=
  match d.problem? with
  | some problem => .error (.invalidModule d.id problem.message)
  | none => .ok ()

/-- What stands for the identifier of a module that could not be read. -/
def unknownId : String := "<unknown>"

/-- Reads and checks the text of a module. -/
def ofText (text : String) : Except Error ModuleDefinition :=
  match Decoder.ofText decode text with
  | .error m => .error (.invalidModule unknownId m.message)
  | .ok d => do
    d.check
    return d

/-- The name of the template: the identifier without its plugin. -/
def templateName (d : ModuleDefinition) : String := (templateOf? d.plugin d.id).getD d.id

/-- The identifiers of the modules to load, in order. -/
def dependencyIds (d : ModuleDefinition) : List String := d.dependencies.map (·.id)

/-- Binds what was found for the dependencies to their names by their places. -/
def bind {α : Type} (d : ModuleDefinition) (found : List α) :
    Except Error (List (String × α)) :=
  if found.length = d.dependencies.length then
    .ok ((d.dependencies.map (·.name)).zip found)
  else .error (.dependencyMismatch d.id d.dependencies.length found.length)

/-- Compiles the template of a module and gives it its dependencies, which have to be named
each exactly once. -/
def instantiate {α : Type} (d : ModuleDefinition) (pairs : List (String × α)) :
    Except Error (Template × Dict α) := do
  let bound := Dict.ofPairs pairs
  let complete := d.dependencies.all fun entry => bound.hasKey entry.name
  if pairs.length ≠ d.dependencies.length ∨ bound.length ≠ pairs.length ∨ !complete then
    throw (.dependencyMismatch d.id d.dependencies.length pairs.length)
  let template ← Template.compile d.templateName d.body d.options
  return (template, bound)

end ModuleDefinition

end Stencil
