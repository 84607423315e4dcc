/-
Compilation options.

The library understands one option, `autoescape`.  All others are kept as they were given and
travel with the template into build output.
-/
import Stencil.Json.Decoder

namespace Stencil

/-- The options a template is compiled with. -/
structure Options where
  /-- Whether the value of every expression is escaped for HTML. -/
  autoescape : Bool := false
  /-- Options that this library only keeps. -/
  extra : Dict Json := []

namespace Options

open Json (Mismatch Decoder Setting Document)

/-- The options as an object: the switch first, then the extra ones in the order of their
keys. -/
def members (o : Options) : List (String × Json) := ("autoescape", .bool o.autoescape) :: o.extra

/-- The options as a value. -/
def toJson (o : Options) : Json := .object (Dict.ofPairs o.members)

/-- The options read so far. -/
structure Fields where
  autoescape : Option Bool := none
  extra : Dict Json := []

/-- Reads one option. -/
def readField : Decoder.FieldReader Fields := fun setting depth s field doc =>
  if field = "autoescape" then
    some (Decoder.once field s.autoescape Decoder.bool
      (fun b => { s with autoescape := some b }) setting depth doc)
  else
    some ((Decoder.any setting depth doc).map fun value =>
      { s with extra := s.extra.insert field value })

/-- Options are an object; the switch is off unless it is given. -/
def decode : Decoder Options := fun setting depth doc =>
  match doc with
  | .object members stop => do
    Json.enter setting depth
    let s ← Decoder.fields readField setting (depth + 1) {} members
    Decoder.finish stop
    return ⟨s.autoescape.getD false, s.extra⟩
  | other => Decoder.reject "struct CompilationOptions" other

end Options

end Stencil
