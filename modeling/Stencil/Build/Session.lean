/-
Build sessions.

In a build every template that is fetched leaves a record of what its module has to hold.  The
first record for a template stays.
-/
import Stencil.Reference
import Stencil.Template

namespace Stencil

/-- What the module of one template has to hold. -/
structure BuildRecord where
  templateId : String
  /-- The source of the template. -/
  body : String
  options : Options
  /-- The references to its partials, in order. -/
  partials : List Reference

namespace BuildRecord

open Json (Decoder)

/-- The record of a template that was fetched under a key. -/
def ofTemplate (key : String) (t : Template) (references : List Reference) : BuildRecord :=
  ⟨key, t.source, t.options, references⟩

/-- The fields of a record read so far. -/
structure Fields where
  templateId : Option String := none
  body : Option String := none
  options : Option Options := none
  partials : Option (List Reference) := none

/-- Reads one field. -/
def readField : Decoder.FieldReader Fields := fun setting depth s field doc =>
  match field with
  | "template_id" =>
    some (Decoder.once field s.templateId Decoder.string
      (fun x => { s with templateId := some x }) setting depth doc)
  | "serialized_body" =>
    some (Decoder.once field s.body Decoder.string
      (fun x => { s with body := some x }) setting depth doc)
  | "options" =>
    some (Decoder.once field s.options Options.decode
      (fun x => { s with options := some x }) setting depth doc)
  | "partials" =>
    some (Decoder.once field s.partials (Decoder.list Reference.decode)
      (fun x => { s with partials := some x }) setting depth doc)
  | _ => none

/-- A record: an object, or an array of the fields in order. -/
def decode : Decoder BuildRecord := fun setting depth doc =>
  match doc with
  | .object members stop => do
    Json.enter setting depth
    let s ← Decoder.fields readField setting (depth + 1) {} members
    Decoder.finish stop
    let templateId ← Decoder.require "template_id" s.templateId
    let body ← Decoder.require "serialized_body" s.body
    let options ← Decoder.require "options" s.options
    let partials ← Decoder.require "partials" s.partials
    return ⟨templateId, body, options, partials⟩
  | .array items stop => do
    Json.enter setting depth
    let part {α : Type} (decode : Decoder α) (i : Nat) : Except Json.Mismatch α := do
      match ← Decoder.element decode setting (depth + 1) items stop i with
      | some value => return value
      | none => throw (.wrongLength i "struct BuildRecord with 4 elements")
    let templateId ← part Decoder.string 0
    let body ← part Decoder.string 1
    let options ← part Options.decode 2
    let partials ← part (Decoder.list Reference.decode) 3
    Decoder.finishRecord setting items.length (items.drop 4) stop
    return ⟨templateId, body, options, partials⟩
  | other => Decoder.reject "struct BuildRecord" other

/-- A record as a value. -/
def toJson (r : BuildRecord) : Json :=
  .object (Dict.ofPairs
    [("template_id", .string r.templateId), ("serialized_body", .string r.body),
     ("options", r.options.toJson), ("partials", .array (r.partials.map Reference.toJson))])

end BuildRecord

/-- The records of a build, by the identifiers of their templates. -/
abbrev BuildSession := Dict BuildRecord

namespace BuildSession

/-- Adds a record unless there is one for its template, and tells whether it was added. -/
def record (r : BuildRecord) (s : BuildSession) : Bool × BuildSession :=
  if Dict.hasKey r.templateId s then (false, s) else (true, Dict.insert r.templateId r s)

end BuildSession

end Stencil
