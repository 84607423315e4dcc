/-
Compiled templates.

Compiling finds the partial tags of a text and checks what remains without them.  The source of
a template is its text with all tags in their normal form; that is what is stored and what a
render reads.
-/
import Stencil.Engine
import Stencil.Options
import Stencil.Piece

namespace Stencil

/-- A template that was compiled under a name. -/
structure Template where
  name : String
  /-- The text as it was given. -/
  text : String
  /-- The text with its tags in normal form. -/
  source : String
  /-- The names in the tags, in order and with repetitions. -/
  tags : List String
  options : Options

namespace Template

/-- Compiles a text. -/
def compile (name text : String) (options : Options) : Except Error Template :=
  let pieces := Piece.ofText text
  match Engine.ofTexts [(Engine.checkKey, Piece.withoutTags pieces)] with
  | .error fault => .error (Engine.compileError name fault)
  | .ok _ => .ok ⟨name, text, Piece.normalText pieces, Piece.names pieces, options⟩

end Template

end Stencil
