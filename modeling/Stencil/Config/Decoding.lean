/-
Reading and writing configurations.

Every field has a default, and fields that no configuration has are passed over.
-/
import Stencil.Config

namespace Stencil.Config

open Json (Mismatch Decoder Setting Document)

/-- The fields read so far. -/
structure Fields where
  extension : Option String := none
  options : Option Options := none
  delimiter : Option String := none
  pathPrefix : Option (Option String) := none
  localPartials : Option LocalPartials := none
  plugin : Option String := none

/-- The configuration of the fields read, with defaults for the others. -/
def Fields.toConfig (s : Fields) : Config :=
  let default : Config := {}
  { extension := s.extension.getD default.extension
    options := s.options.getD default.options
    delimiter := s.delimiter.getD default.delimiter
    pathPrefix := s.pathPrefix.getD default.pathPrefix
    localPartials := s.localPartials.getD default.localPartials
    plugin := s.plugin.getD default.plugin }

/-- A policy, by its name. -/
def decodeLocalPartials : Decoder LocalPartials := Decoder.variant LocalPartials.names

/-- Reads one field. -/
def readField : Decoder.FieldReader Fields := fun setting depth s field doc =>
  match field with
  | "template_extension" =>
    some (Decoder.once field s.extension Decoder.string
      (fun x => { s with extension := some x }) setting depth doc)
  | "compilation_options" =>
    some (Decoder.once field s.options Options.decode
      (fun x => { s with options := some x }) setting depth doc)
  | "delimiter" =>
    some (Decoder.once field s.delimiter Decoder.string
      (fun x => { s with delimiter := some x }) setting depth doc)
  | "path_prefix" =>
    some (Decoder.once field s.pathPrefix (Decoder.optional Decoder.string)
      (fun x => { s with pathPrefix := some x }) setting depth doc)
  | "local_partials" =>
    some (Decoder.once field s.localPartials decodeLocalPartials
      (fun x => { s with localPartials := some x }) setting depth doc)
  | "plugin_name" =>
    some (Decoder.once field s.plugin Decoder.string
      (fun x => { s with plugin := some x }) setting depth doc)
  | _ => none

/-- A configuration: an object, or an array of the fields in order. -/
def decode : Decoder Config := fun setting depth doc =>
  match doc with
  | .object members stop => do
    Json.enter setting depth
    let s ← Decoder.fields readField setting (depth + 1) {} members
    Decoder.finish stop
    return s.toConfig
  | .array items stop => do
    Json.enter setting depth
    let inner := depth + 1
    let extension ← Decoder.element Decoder.string setting inner items stop 0
    let options ← Decoder.element Options.decode setting inner items stop 1
    let delimiter ← Decoder.element Decoder.string setting inner items stop 2
    let pathPrefix ← Decoder.element (Decoder.optional Decoder.string) setting inner items stop 3
    let localPartials ← Decoder.element decodeLocalPartials setting inner items stop 4
    let plugin ← Decoder.element Decoder.string setting inner items stop 5
    Decoder.finishRecord setting items.length (items.drop 6) stop
    return Fields.toConfig ⟨extension, options, delimiter, pathPrefix, localPartials, plugin⟩
  | other => Decoder.reject "struct LoaderConfig" other

/-- A configuration as a value; a missing prefix is left out. -/
def toJson (c : Config) : Json :=
  let start := match c.pathPrefix with
    | some start => [("path_prefix", Json.string start)]
    | none => []
  .object (Dict.ofPairs (
    [("template_extension", .string c.extension),
     ("compilation_options", c.options.toJson),
     ("delimiter", .string c.delimiter)] ++ start ++
    [("local_partials", .string c.localPartials.name),
     ("plugin_name", .string c.plugin)]))

end Stencil.Config
