/-
References to partials.

A tag names a partial in the words of the template it stands in.  The name is resolved to a
canonical identifier against a context: a name without the delimiter is local, one that starts
with a dot is relative to the directory of the template, one that starts with a slash is
absolute, and any other path gets the configured prefix.  The references of a template are
numbered from one in the order in which their names are first met.
-/
import Stencil.Config
import Stencil.Path

namespace Stencil

/-- What the names of partials are resolved against. -/
structure ResolutionContext where
  /-- The directory of the template, up to its last slash. -/
  basePath : String := ""
  /-- What is put in front of paths that are neither relative nor absolute. -/
  pathPrefix : Option String := none
  delimiter : String := "/"
  localPartials : LocalPartials := .load
deriving DecidableEq

/-- The context of a template, which its name and the configuration determine. -/
def ResolutionContext.ofTemplate (c : Config) (name : String) : ResolutionContext where
  basePath := Path.base (c.fetchPath name)
  pathPrefix := c.prefix?
  delimiter := c.delimiter
  localPartials := c.localPartials

/-- The canonical identifier of a partial; a local one may have none. -/
def ResolutionContext.resolve? (ctx : ResolutionContext) (name : String) : Option String :=
  if Text.contains ctx.delimiter.toList name.toList then
    if name.toList.head? = some '.' then some (ctx.basePath ++ name)
    else
      match ctx.pathPrefix with
      | some start => some (if Path.isAbsolute name.toList then name else start ++ name)
      | none => some name
  else
    match ctx.localPartials with
    | .load => some name
    | .runtime => none

/-- A partial of a template: its name there, its canonical identifier, and its place among the
references of the template, counted from one. -/
structure Reference where
  name : String
  canonicalId : String
  order : Nat
deriving DecidableEq, Repr

/-- Adds a tag to the names met and the references found so far. -/
def Reference.meet (ctx : ResolutionContext) (state : List String × List Reference)
    (name : String) : List String × List Reference :=
  let (met, found) := state
  if name ∈ met then state
  else
    match ctx.resolve? name with
    | some id => (name :: met, found ++ [⟨name, id, found.length + 1⟩])
    | none => (name :: met, found)

/-- The references of a template whose tags bear the given names, in the order of the tags. -/
def resolvePartials (ctx : ResolutionContext) (names : List String) : List Reference :=
  (names.foldl (Reference.meet ctx) ([], [])).2

/-- The reference with a given name. -/
def Reference.find? (references : List Reference) (name : String) : Option Reference :=
  references.find? (·.name = name)

namespace Reference

open Json (Mismatch Decoder Setting Document)

/-- The fields of a reference read so far. -/
structure Fields where
  name : Option String := none
  canonicalId : Option String := none
  order : Option Nat := none

/-- Reads one field. -/
def readField : Decoder.FieldReader Fields := fun setting depth s field doc =>
  match field with
  | "name" =>
    some (Decoder.once field s.name Decoder.string
      (fun x => { s with name := some x }) setting depth doc)
  | "canonical_id" =>
    some (Decoder.once field s.canonicalId Decoder.string
      (fun x => { s with canonicalId := some x }) setting depth doc)
  | "order" =>
    some (Decoder.once field s.order Decoder.word
      (fun x => { s with order := some x }) setting depth doc)
  | _ => none

/-- A reference: an object, or an array of the fields in order. -/
def decode : Decoder Reference := fun setting depth doc =>
  match doc with
  | .object members stop => do
    Json.enter setting depth
    let s ← Decoder.fields readField setting (depth + 1) {} members
    Decoder.finish stop
    let name ← Decoder.require "name" s.name
    let canonicalId ← Decoder.require "canonical_id" s.canonicalId
    let order ← Decoder.require "order" s.order
    return ⟨name, canonicalId, order⟩
  | .array items stop => do
    Json.enter setting depth
    let part {α : Type} (decode : Decoder α) (i : Nat) : Except Mismatch α := do
      match ← Decoder.element decode setting (depth + 1) items stop i with
      | some value => return value
      | none => throw (.wrongLength i "struct PartialReference with 3 elements")
    let name ← part Decoder.string 0
    let canonicalId ← part Decoder.string 1
    let order ← part Decoder.word 2
    Decoder.finishRecord setting items.length (items.drop 3) stop
    return ⟨name, canonicalId, order⟩
  | other => Decoder.reject "struct PartialReference" other

/-- A reference as a value. -/
def toJson (r : Reference) : Json :=
  .object (Dict.ofPairs
    [("name", .string r.name), ("canonical_id", .string r.canonicalId), ("order", .int r.order)])

end Reference

end Stencil
