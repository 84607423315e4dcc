/-
Modules: templates composed with their partials.

Loading makes one module for each template and shares it between all that refer to it.  The
serial number tells a module from every other one that the same loader made, so that sharing
can be observed; what a module prints depends on its closure alone.
-/
import Stencil.Closure

namespace Stencil

/-- A composed template with the modules that its tags stand for, by name. -/
inductive Module where
  | mk (serial : Nat) (template : Template) (partials : List (String × Module))

namespace Module

/-- The number of a module among those of its loader. -/
def serial : Module → Nat
  | mk n _ _ => n

/-- The template of a module. -/
def template : Module → Template
  | mk _ t _ => t

/-- The modules of the partials, by name. -/
def partials : Module → Dict Module
  | mk _ _ p => p

mutual

/-- What a module is without its numbers. -/
def closure : Module → Closure
  | mk _ t p => .mk t (closures p)

/-- The closures of modules, by name. -/
def closures : List (String × Module) → List (String × Closure)
  | [] => []
  | (name, m) :: rest => (name, m.closure) :: closures rest

end

/-- The module that a row of names leads to. -/
def at? (m : Module) : List String → Option Module
  | [] => some m
  | name :: rest =>
    match m.partials.get? name with
    | some p => p.at? rest
    | none => none

end Module

end Stencil
