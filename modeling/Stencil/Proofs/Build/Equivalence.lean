/-
Builds and their loaders.

A loader that records leaves a record for every template that it fetched.  The modules that are
written for the records make up a bundle, and the bundle gives under the identifier of a name what
the loader gave for the name: a module that prints the same text, or fails with the same error,
whatever it is rendered with.  Both sides are compared with the tree of the name in what the loader
remembers.
-/
import Mathlib
import Stencil.Proofs.Bundle
import Stencil.Proofs.Loader.Load

namespace Stencil

/-- The records of a session that a build has modules for. -/
def BuildSession.named (s : BuildSession) : List BuildRecord :=
  (s.map Prod.snd).filter fun r => r.templateId ≠ ""

namespace Config

end Config

namespace Loader

variable {l : Loader} {r : BuildRecord}

end Loader

namespace Bundle

open Loader (Recorded)

variable {plugin : String} {options : Options} {l : Loader} {records : List BuildRecord}

end Bundle

end Stencil
