/-
Tests.

A test asks a question about a variable, which may not even exist.  Most tests want the
variable to exist, and each of them takes a fixed number of arguments at most.
-/
import Stencil.Decimal.Remainder
import Stencil.Error
import Stencil.Json.Value
import Stencil.Text.Search

namespace Stencil.Render

/-- Why a test has no answer. -/
inductive TestFault where
  | takesNoArguments (test : String)
  | tooManyArguments (test : String) (found allowed : Nat)
  | undefinedVariable (test : String)
  /-- The variable or an argument (`place`) is not of the kind that the test is about. -/
  | wrongKind (test place kind : String)
  | notAContainer
deriving DecidableEq, Repr

/-- The wording of a fault. -/
def TestFault.message : TestFault → String
  | takesNoArguments test =>
    "Tester `" ++ test ++ "` was called with some args but this test doesn't take args"
  | tooManyArguments test found allowed =>
    "Tester `" ++ test ++ "` was called with " ++ natText found ++
      " args, the max number is " ++ natText allowed
  | undefinedVariable test => "Tester `" ++ test ++ "` was called on an undefined variable"
  | wrongKind test place kind =>
    "Tester `" ++ test ++ "` was called " ++ place ++ " that isn't a " ++ kind
  | notAContainer => "Tester `containing` can only be used on string, array or map"

/-- A test is given the value of a variable, if it has one, and arguments. -/
abbrev Test := Option Json → List Json → Except TestFault Bool

namespace Test

/-- Refuses more than the given number of arguments. -/
def atMost (test : String) (allowed : Nat) (args : List Json) : Except TestFault Unit :=
  if args.length ≤ allowed then .ok ()
  else if allowed = 0 then .error (.takesNoArguments test)
  else .error (.tooManyArguments test args.length allowed)

/-- A test of a variable that has to exist. -/
def onValue (test : String) (allowed : Nat)
    (question : Json → List Json → Except TestFault Bool) : Test := fun found args => do
  atMost test allowed args
  match found with
  | some value => question value args
  | none => throw (.undefinedVariable test)

/-- A test without arguments that always has an answer. -/
def always (test : String) (question : Json → Bool) : Test :=
  onValue test 0 fun value _ => .ok (question value)

/-- A number, from the variable or an argument. -/
def number (test place : String) : Option Json → Except TestFault Float
  | some (.number n) => .ok n.toFloat
  | _ => .error (.wrongKind test place "number")

/-- A string, from the variable or an argument. -/
def text (test place : String) : Option Json → Except TestFault (List Char)
  | some (.string s) => .ok s.toList
  | _ => .error (.wrongKind test place "string")

/-- How faults call the variable. -/
def onVariable : String := "on a variable"

/-- How faults call an argument. -/
def withParameter : String := "with a parameter"

/-- Whether a number is odd; whoever asks, the fault names the test `odd`. -/
def isOdd (value : Json) : Except TestFault Bool := do
  return Decimal.remainder (← number "odd" onVariable (some value)) 2 != 0

/-- A test of a string against another one. -/
def onTexts (test : String) (question : List Char → List Char → Bool) : Test :=
  onValue test 1 fun value args => do
    let whole ← text test onVariable (some value)
    let part ← text test withParameter args.head?
    return question part whole

/-- Whether one number divides another. -/
def divides (value : Json) (args : List Json) : Except TestFault Bool := do
  let x ← number "divisibleby" onVariable (some value)
  let y ← number "divisibleby" withParameter args.head?
  return Decimal.remainder x y == 0

/-- Whether a container holds an item, a member or a part. -/
def holds (value : Json) (args : List Json) : Except TestFault Bool := do
  match value with
  | .string s => return Text.contains (← text "containing" withParameter args.head?) s.toList
  | .array items => return items.any fun item => (args.head?.map item.same).getD false
  | .object members =>
    let key ← text "containing" withParameter args.head?
    return Dict.hasKey (String.ofList key) members
  | _ => throw .notAContainer

/-- The test with a name. -/
def named? : String → Option Test
  | "defined" => some fun found args => do
      atMost "defined" 0 args
      return found.isSome
  | "undefined" => some fun found args => do
      atMost "undefined" 0 args
      return found.isNone
  | "odd" => some (onValue "odd" 0 fun value _ => isOdd value)
  | "even" => some (onValue "even" 0 fun value _ => (!·) <$> isOdd value)
  | "number" => some (always "number" fun
      | .number _ => true
      | _ => false)
  | "string" => some (always "string" fun
      | .string _ => true
      | _ => false)
  | "object" => some (always "object" fun
      | .object _ => true
      | _ => false)
  | "iterable" => some (always "iterable" fun
      | .array _ | .object _ => true
      | _ => false)
  | "divisibleby" => some (onValue "divisibleby" 1 divides)
  | "starting_with" => some (onTexts "starting_with" List.isPrefixOf)
  | "ending_with" => some (onTexts "ending_with" List.isSuffixOf)
  | "containing" => some (onValue "containing" 1 holds)
  | _ => none

end Test

end Stencil.Render
