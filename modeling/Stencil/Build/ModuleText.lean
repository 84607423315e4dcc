/-
The text of a module.

A module is stored as a JSON document with a fixed layout: one line for each field and one for
each dependency.
-/
import Stencil.Build.Session

namespace Stencil

namespace ModuleText

/-- The text of a string. -/
def quoted (text : String) : String := (Json.string text).compact

/-- The line of one dependency: its place, the name it is bound to, and the module. -/
def dependency (plugin : String) (r : Reference) : String :=
  "\n    \x7b \"order\": " ++ natText r.order ++ ", \"name\": " ++ quoted r.name ++
    ", \"id\": " ++ quoted (moduleId plugin r.canonicalId) ++ " \x7d"

/-- The text of the module for a record. -/
def write (plugin : String) (r : BuildRecord) : String :=
  "\x7b\n  \"module\": " ++ quoted (moduleId plugin r.templateId) ++
    ",\n  \"plugin\": " ++ quoted plugin ++
    ",\n  \"dependencies\": [" ++ ",".intercalate (r.partials.map (dependency plugin)) ++
    "\n  ],\n  \"options\": " ++ (Json.object r.options.members).compact ++
    ",\n  \"template\": " ++ quoted r.body ++ "\n\x7d\n"

end ModuleText

end Stencil
