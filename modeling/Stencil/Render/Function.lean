/-
Functions.

A function makes a value from its arguments alone.
-/
import Stencil.Json.Writer
import Stencil.Render.Kind

namespace Stencil.Render

/-- Why a function has no value. -/
inductive FunctionFault where
  /-- An argument of `range` is no size; `shown` is what it is called in the complaint. -/
  | notASize (name : String) (found : Json) (shown : String)
  | missingEnd
  | startAfterEnd
  /-- A template asked for this fault. -/
  | thrown (message : String)
  | wrongMessage (found : Json)
  | missingMessage

/-- The wording of a fault. -/
def FunctionFault.message : FunctionFault → String
  | notASize name found shown =>
    "Function `range` received " ++ name ++ "=" ++ found.compact ++ " but `" ++ shown ++
      "` can only be a number"
  | missingEnd => "Function `range` was called without a `end` argument"
  | startAfterEnd =>
    "Function `range` was called with a `start` argument greater than the `end` one"
  | thrown message => message
  | wrongMessage found =>
    "Function `throw` received message=" ++ found.compact ++
      " but `message` can only be a string"
  | missingMessage => "Function `throw` was called without a `message` argument"

/-- A function maps its arguments to a value. -/
abbrev Function := Dict Json → Except FunctionFault Json

namespace Function

/-- A size among the arguments of `range`. -/
def size? (name shown : String) (args : Dict Json) : Except FunctionFault (Option Nat) :=
  match args.get? name with
  | none => .ok none
  | some found =>
    match Kind.size.read? found with
    | some n => .ok (some n.toNat)
    | none => .error (.notASize name found shown)

/-- The numbers from `start` on, up to but not including `stop`, at equal distances. -/
def numbers (start stop step : Nat) : List Json :=
  (List.range ((stop - start + (step - 1)) / step)).map fun i => .int (start + i * step : Nat)

/-- A list of numbers at equal distances. -/
def range : Function := fun args => do
  let start := (← size? "start" "start" args).getD 0
  let step := (← size? "step_by" "step" args).getD 1
  match ← size? "end" "end" args with
  | none => throw .missingEnd
  | some stop =>
    if stop < start then throw .startAfterEnd
    return .array (numbers start stop step)

/-- Fails with the given message. -/
def fail : Function := fun args =>
  match args.get? "message" with
  | some (.string message) => .error (.thrown message)
  | some found => .error (.wrongMessage found)
  | none => .error .missingMessage

/-- The function with a name. -/
def named? : String → Option Function
  | "range" => some range
  | "throw" => some fail
  | _ => none

end Function

end Stencil.Render
