/-
What can go wrong in a render.

A problem may have another one as its reason; `chain` lists the wordings from the outermost
problem inwards.  Where a problem only quotes another one, that one is no reason of it.
-/
import Stencil.Language.Dump
import Stencil.Render.Filter.Fault
import Stencil.Render.Function
import Stencil.Render.Test

namespace Stencil.Render

open Stencil.Language (MathOp)

/-- What stands in arithmetic and is no number. -/
inductive NotNumber where
  | variableValue (path : String)
  | callValue (name : String)
  /-- What filters make of an expression. -/
  | filteredValue
  | text (value : String)
  | bool (value : Bool)
  | concatenation (source : String)
  | testAnswer (name : String)
  /-- Anything else. -/
  | expression

/-- The wording. -/
def NotNumber.message : NotNumber → String
  | variableValue path =>
    "Variable `" ++ path ++ "` was used in a math operation but is not a number"
  | callValue name =>
    "Function `" ++ name ++ "` was used in a math operation but is not returning a number"
  | filteredValue => "Tried to do math with an expression not resulting in a number"
  | text value => "Tried to do math with a string: `" ++ value ++ "`"
  | bool value => "Tried to do math with a boolean: `" ++ boolName value ++ "`"
  | concatenation source => "Tried to do math with a string concatenation: " ++ source
  | testAnswer name => "Tried to do math with a test: " ++ name
  | expression => "Tried to do math with an expression that has no value"

/-- Why arithmetic has no result. -/
inductive ArithmeticFault where
  | notANumber (what : NotNumber)
  /-- The result does not fit a word, which is signed or not. -/
  | overflow (op : MathOp) (lhs rhs : Int) (signed : Bool)
  /-- The texts show the operands as they were written. -/
  | moduloZero (lhs rhs : String)

/-- The sign of an operator in a message. -/
def opSign : MathOp → String
  | .add => "+"
  | .sub => "-"
  | .mul => "x"
  | .div => "/"
  | .modulo => "%"

/-- The wording of a fault. -/
def ArithmeticFault.message : ArithmeticFault → String
  | notANumber what => what.message
  | overflow op lhs rhs signed =>
    intName lhs ++ " " ++ opSign op ++ " " ++ intName rhs ++
      " results in an out of bounds " ++ if signed then "i64" else "u64"
  | moduloZero lhs rhs => "Tried to do a modulo by zero: " ++ lhs ++ "/" ++ rhs

/-- Why a loop cannot run over a container. -/
inductive LoopFault where
  /-- The container is written as something that is never one. -/
  | unfitExpression (shown : String)
  | keyForItems (container : String)
  | noKeyForMembers (container : String)
  | unfitValue (container : String)

/-- The wording of a fault. -/
def LoopFault.message : LoopFault → String
  | unfitExpression shown =>
    "Forloop containers have to be an ident or a function call (tried to iterate on '" ++
      shown ++ "')"
  | keyForItems container =>
    "Tried to iterate using key value on variable `" ++ container ++
      "`, but it isn't an object/map"
  | noKeyForMembers container =>
    "Tried to iterate using key value on variable `" ++ container ++
      "`, but it is missing a key"
  | unfitValue container =>
    "Tried to iterate on a container (`" ++ container ++ "`) that has a unsupported type"

/-- The three kinds of calls. -/
inductive Callee where
  | filter
  | test
  | function
deriving DecidableEq, Repr

/-- The name of a kind of calls. -/
def Callee.name : Callee → String
  | filter => "Filter"
  | test => "Test"
  | function => "Function"

/-- Why a template has no output. -/
inductive Problem where
  /-- There is no variable at a path.  Where the path holds subscripts, `evaluated` is the path
  with their values in place. -/
  | unknownVariable (path template : String) (evaluated : Option String)
  /-- A subscript in a path has no value; the problem with it is quoted. -/
  | failedSubscript (path : String) (quoted : Problem)
  | unfitSubscript (subscript path : String)
  | defaultWithoutValue
  /-- A part of a concatenation is neither a string nor a number. -/
  | unfitPart (isVariable : Bool) (name : String)
  | unknownCallee (kind : Callee) (name : String)
  | failedCall (kind : Callee) (name : String) (reason : Problem)
  | filter (fault : FilterFault)
  | test (fault : TestFault)
  | function (fault : FunctionFault)
  | arithmetic (fault : ArithmeticFault)
  /-- The value of an arithmetic expression cannot be found for a problem that is quoted. -/
  | failedArithmetic (quoted : Problem)
  | comparesNaN
  | notABool (callee : String)
  /-- Something other than a string is looked for in a string or among keys. -/
  | unfitMember (shown container : String)
  | unfitContainer
  | loop (fault : LoopFault)
  /-- A loop is to be left, or to go on, where there is none. -/
  | outsideLoop (command : String)
  | unknownTemplates (names : List String)
  | inheritsWhenIncluded (parent : String)
  | replacesNothing
  | unknownSpace (space template : String)
  | unknownMacro (space name template : String)
  | missingArgument (name argument : String)
  /-- The render is nested deeper than any template needs. -/
  | exhausted

namespace Problem

/-- The wording of a problem. -/
def message : Problem → String
  | unknownVariable path template none =>
    "Variable `" ++ path ++ "` not found in context while rendering '" ++ template ++ "'"
  | unknownVariable path template (some evaluated) =>
    "Variable `" ++ path ++ "` not found in context while rendering '" ++ template ++
      "': the evaluated version was `" ++ evaluated ++ "`. Maybe the index is out of bounds?"
  | failedSubscript path quoted =>
    "Variable " ++ path ++ " can not be evaluated because: " ++ quoted.message
  | unfitSubscript subscript path =>
    "Only variables evaluating to String or Number can be used as index (`" ++ subscript ++
      "` of `" ++ path ++ "`)"
  | defaultWithoutValue => "The `default` filter requires a `value` argument."
  | unfitPart isVariable name =>
    "Tried to concat a value that is not a string or a number from " ++
      (if isVariable then "ident " else "function call ") ++ name
  | unknownCallee kind name => kind.name ++ " '" ++ name ++ "' not found"
  | failedCall kind name _ => kind.name ++ " call '" ++ name ++ "' failed"
  | filter fault => fault.message
  | test fault => fault.message
  | function fault => fault.message
  | arithmetic fault => fault.message
  | failedArithmetic quoted => quoted.message
  | comparesNaN => "Comparison to NaN"
  | notABool callee =>
    "Function `" ++ callee ++
      "` was used in a logic operation but is not returning a bool"
  | unfitMember shown container =>
    "Tried to check if " ++ shown ++ " is in a " ++ container ++ ", but it isn't a string"
  | unfitContainer => "The `in` operator only supports strings, arrays and objects."
  | loop fault => fault.message
  | outsideLoop command => "Attempted `" ++ command ++ "` while not in `for loop`"
  | unknownTemplates names => "Template '" ++ listed "[" "]" names ++ "' not found"
  | inheritsWhenIncluded parent =>
    "Inheritance in included templates is currently not supported: extended `" ++ parent ++ "`"
  | replacesNothing => "Tried to use super() in the top level block"
  | unknownSpace space template =>
    "Macro namespace `" ++ space ++ "` was not found in template `" ++ template ++
      "`. Have you maybe forgotten to import it, or misspelled it?"
  | unknownMacro space name template =>
    "Macro `" ++ space ++ "::" ++ name ++ "` not found in template `" ++ template ++ "`"
  | missingArgument name argument =>
    "Macro `" ++ name ++ "` is missing the argument `" ++ argument ++ "`"
  | exhausted => "The render is nested too deeply"

/-- The wordings of a problem and of the reasons behind it. -/
def chain : Problem → List String
  | failedCall kind name reason => (failedCall kind name reason).message :: reason.chain
  | problem => [problem.message]

end Problem

end Stencil.Render
