/-
Closures: templates with their partials.

A render lists the template and every partial it reaches, each under a key of its own that
spells the way of tags to it, so that the same name may stand for different partials in
different templates.  A tag whose name is known becomes the inclusion of the partial, and any
other tag disappears.
-/
import Stencil.Template
import Stencil.Text.Lines

namespace Stencil

/-- A template with the partials that its tags stand for, by name. -/
inductive Closure where
  | mk (template : Template) (partials : List (String × Closure))

namespace Closure

/-- The template of a closure. -/
def template : Closure → Template
  | mk t _ => t

/-- The partials of a closure, by name. -/
def partials : Closure → Dict Closure
  | mk _ p => p

/-- How deep partials may be nested. -/
def maxDepth : Nat := 10

/-- What stands for a tag in a render. -/
def inclusion (lookup : Dict Closure) (key name : String) : List Char :=
  if lookup.hasKey name then
    "\x7b% include \"".toList ++ (Engine.childKey key name).toList ++ "\" %\x7d".toList
  else []

/-- A source with its tags replaced for a render. -/
def withInclusions (lookup : Dict Closure) (key : String) (pieces : List Piece) : String :=
  String.ofList (Piece.write (inclusion lookup key) pieces)

/-- The names of the tags whose partials are known, each of them once. -/
def known (lookup : Dict Closure) (pieces : List Piece) : List String :=
  ((Piece.names pieces).filter lookup.hasKey).eraseDups

/-- What the tags of a partial stand for: what the overrides say, or else its own partials.  Without
overrides its own partials are taken as they are. -/
def nested (overrides own : Dict Closure) : Dict Closure :=
  if overrides.isEmpty then own else Dict.override own overrides

/-- The sources for a render of a template under a key, before those of its partials.
`room` is the number of levels that are left. -/
def sources (overrides : Dict Closure) : (room : Nat) → (key : String) → Template →
    (lookup : Dict Closure) → Except Error (List (String × String))
  | 0, _, template, _ => .error (.partialDepth template.name maxDepth)
  | room + 1, key, template, lookup => do
    let pieces := Piece.ofText template.source
    let below ← (known lookup pieces).mapM fun name =>
      match lookup.get? name with
      | none => .ok []
      | some child =>
        sources overrides room (Engine.childKey key name) child.template
          (nested overrides child.partials)
    return (key, withInclusions lookup key pieces) :: below.flatten

end Closure

/-- The engine for a template with the given partials; overrides hold in all partials. -/
def Template.engine (t : Template) (lookup overrides : Dict Closure) : Except Error Engine := do
  let texts ← Closure.sources overrides (Closure.maxDepth + 1) Engine.rootKey t lookup
  match Engine.ofTexts texts with
  | .ok engine => return engine
  | .error fault => throw (Engine.compileError t.name fault)

/-- Renders a template with an engine made for it. -/
def Template.renderWith (t : Template) (engine : Engine) (given : Dict Json) (indent : String) :
    Except Error String :=
  match engine.page t.options.autoescape given with
  | .ok printed => .ok (String.ofList (Text.indentLines indent.toList printed.toList))
  | .error fault => .error (Engine.renderError t.name fault)

/-- Renders a template with the given partials. -/
def Template.render (t : Template) (given : Dict Json) (partials : Dict Closure)
    (indent : String) : Except Error String := do
  t.renderWith (← t.engine partials []) given indent

namespace Closure

/-- Renders a closure whose engine may have been kept from an earlier render, and returns the
engine to keep.  Partials given at run time take precedence everywhere, and such a render makes
an engine of its own. -/
def renderKeeping (c : Closure) (kept : Option Engine) (given : Dict Json)
    (runtime : Dict Closure) (indent : String) : Except Error String × Option Engine :=
  match runtime with
  | [] =>
    let engine : Except Error Engine :=
      match kept with
      | some engine => .ok engine
      | none => c.template.engine c.partials []
    match engine with
    | .error e => (.error e, none)
    | .ok engine => (c.template.renderWith engine given indent, some engine)
  | runtime =>
    let outcome : Except Error String := do
      let engine ← c.template.engine (Dict.override c.partials runtime) runtime
      c.template.renderWith engine given indent
    (outcome, kept)

/-- Renders a closure. -/
def render (c : Closure) (given : Dict Json) (runtime : Dict Closure) (indent : String) :
    Except Error String :=
  (c.renderKeeping none given runtime indent).1

end Closure

end Stencil
