/-
The filters by name.
-/
import Stencil.Render.Filter.OnList
import Stencil.Render.Filter.OnNumber
import Stencil.Render.Filter.OnText

namespace Stencil.Render

/-- The filter with a name. -/
def Filter.named? (name : String) : Option Filter :=
  Filter.onText? name <|> Filter.onList? name <|> Filter.onNumber? name

end Stencil.Render
