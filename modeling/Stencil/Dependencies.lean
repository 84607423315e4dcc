/-
Dependencies of a template.

All references of a template are resolved in one request, which lists their canonical
identifiers in order.  The answer lists one result for each of them, and the results are bound
to the names in the template by their places.
-/
import Stencil.Error
import Stencil.Reference

namespace Stencil

/-- Binds results to the names of references by their places. -/
def bindReferences {α : Type} (template : String) (references : List Reference)
    (found : List α) : Except Error (Dict α) :=
  if found.length = references.length then
    .ok (Dict.ofPairs ((references.map (·.name)).zip found))
  else .error (.dependencyMismatch template references.length found.length)

/-- Binds results, or complains that there are too few or too many. -/
def bindResults {m : Type → Type} [Monad m] {α : Type} (template : String)
    (references : List Reference) (found : List α) : ExceptT Error m (Dict α) :=
  match bindReferences template references found with
  | .ok partials => pure partials
  | .error e => throw e

/-- Resolves the references of a template.  Without references there is no request. -/
def loadDependencies {m : Type → Type} [Monad m] {α : Type}
    (resolve : List String → ExceptT Error m (List α)) (template : String)
    (references : List Reference) : ExceptT Error m (Dict α) :=
  match references with
  | [] => pure []
  | references => do
    let found ← resolve (references.map (·.canonicalId))
    bindResults template references found

end Stencil
