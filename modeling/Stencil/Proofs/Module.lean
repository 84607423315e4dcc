/-
Modules and their closures.

A closure forgets the numbers of a module and nothing else, so it is built from the partials in
the same way as the module is.
-/
import Mathlib
import Stencil.Module
import Stencil.Proofs.Dict

namespace Stencil.Module

theorem closures_eq_mapValues (p : List (String × Module)) :
    closures p = Dict.mapValues closure p := by
  induction p with
  | nil => rw [closures]; rfl
  | cons entry p ih =>
      obtain ⟨name, m⟩ := entry
      rw [closures, ih]
      rfl

theorem closure_mk (n : Nat) (t : Template) (p : List (String × Module)) :
    (mk n t p).closure = .mk t (Dict.mapValues closure p) := by
  rw [closure, closures_eq_mapValues]

theorem partials_closure (m : Module) : m.closure.partials = Dict.mapValues closure m.partials := by
  cases m
  rw [closure_mk]
  rfl

/-- The closure of a module is built from the closures of its partials. -/
theorem closure_mk_ofPairs (n : Nat) (t : Template) (names : List String) (found : List Module) :
    (mk n t (Dict.ofPairs (names.zip found))).closure =
      .mk t (Dict.ofPairs (names.zip (found.map closure))) := by
  rw [closure_mk, Dict.mapValues_ofPairs, List.zip_map_right]
  rfl

end Stencil.Module
