/-
Expressions.

There are three readings of an expression: as a value, as a condition, and as a number in
arithmetic.  As a value it may be escaped at the end; as a condition a variable that is missing
counts as false.
-/
import Stencil.Render.Arithmetic
import Stencil.Render.Call
import Stencil.Text.Html

namespace Stencil.Render

open Stencil.Language (Call Expr LogicOp MathOp Term)

/-- The value that an expression names for the case that its variable has none. -/
def defaultValue (ev : Evaluators) (escape : Bool) (e : Expr) : Run Json :=
  match e.filters with
  | call :: _ =>
    match call.args.lookup "value" with
    | some value => ev.value escape value
    | none => throw .defaultWithoutValue
  | [] => throw .defaultWithoutValue

/-- The text of a value in a concatenation. -/
def partText? : Json → Option String
  | .string s => some s
  | .number n => some (String.ofList (Json.numberText n))
  | _ => none

/-- The text of one part of a concatenation, and whether a function made it. -/
def partValue (stage : Stage) (ev : Evaluators) : Term → Run (String × Bool)
  | .string s => pure (s, false)
  | .int n => pure (intName n, false)
  | .float x => pure (String.ofList (Decimal.plainLayout.write x), false)
  | .ident path => do
    match partText? (← settle id (← readVariable stage path)) with
    | some text => return (text, false)
    | none => throw (.unfitPart true path)
  | .call call => do
    match partText? (← callFunction ev call) with
    | some text => return (text, true)
    | none => throw (.unfitPart false call.name)
  | _ => throw (.unfitPart true "")

/-- The text of a concatenation, and whether a function made some of it. -/
def joinedValue (stage : Stage) (ev : Evaluators) : List Term → Run (String × Bool)
  | [] => pure ("", false)
  | part :: rest => do
    let (text, called) ← partValue stage ev part
    let (more, calledLater) ← joinedValue stage ev rest
    return (text ++ more, called || calledLater)

/-- Whether an item is in a container. -/
def isMember (item container : Json) : Except Problem Bool :=
  match container, item with
  | .array items, item => .ok (items.any (·.same item))
  | .string s, .string part => .ok (Text.contains part.toList s.toList)
  | .string _, item => .error (.unfitMember item.dump "string")
  | .object members, .string key => .ok (Dict.hasKey key members)
  | .object _, item => .error (.unfitMember item.dump "object")
  | _, _ => .error .unfitContainer

/-- The answer of an `in` condition. -/
def memberValue (ev : Evaluators) (item container : Expr) (negated : Bool) : Run Bool := do
  let item ← ev.value false item
  let container ← ev.value false container
  let present ← settle id (isMember item container)
  return present != negated

/-- The value that an expression starts from, and whether it is to be escaped in the end; none
if a negated expression starts from a variable that does not exist. -/
def startValue (stage : Stage) (ev : Evaluators) (escape : Bool) (e : Expr) :
    Run (Option (Json × Bool)) :=
  match e.term with
  | .string s => return some (.string s, true)
  | .int n => return some (.int n, false)
  | .float x => return some (.number (.float x), false)
  | .bool b => return some (.bool b, false)
  | .array items => do return some (.array (← items.mapM (ev.value escape)), false)
  | .member item container negated => do
    return some (.bool (← memberValue ev item container negated), false)
  | .concat parts => do
    let (text, called) ← joinedValue stage ev parts
    return some (.string text, called)
  | .call call => do return some (← callFunction ev call, true)
  | .macroCall space name args => do
    return some (.string (← callMacro stage ev escape space name args), false)
  | .test path negated name args => do
    return some (.bool (← putToTest stage ev path negated name args), false)
  | .logic _ _ _ => do return some (.bool (← ev.condition escape e), false)
  | .math _ _ _ => do
    match ← tryCatch (ev.number escape (.of e.term))
        fun problem => throw (.failedArithmetic problem) with
    | some n => return some (.number n, false)
    | none => return some (.string "NaN", false)
  | .ident path => do
    let escapable := path != everything
    match ← readVariable stage path, e.hasDefault, e.negated with
    | .ok .null, true, _ => return some (← defaultValue ev escape e, escapable)
    | .ok value, _, _ => return some (value, escapable)
    | .error _, true, _ => return some (← defaultValue ev escape e, escapable)
    | .error _, false, true => return none
    | .error problem, false, false => throw problem

/-- Applies filters one after another. -/
def applyFilters (ev : Evaluators) : List Call → Json → Run Json
  | [], value => pure value
  | call :: rest, value => do applyFilters ev rest (← applyFilter ev call value)

/-- The filters that change a value: all but the two that say how it is treated. -/
def changingFilters (e : Expr) : List Call :=
  e.filters.filter fun call => call.name != "safe" && call.name != "default"

/-- A value as it leaves an expression. -/
def escapeValue (value : Json) : Json :=
  match value with
  | .string s => .string (Text.escapeHtml s)
  | value => value

/-- The value of an expression. -/
def valueStep (stage : Stage) (ev : Evaluators) (escape : Bool) (e : Expr) : Run Json := do
  match ← startValue stage ev escape e with
  | none => return .bool true
  | some (start, escapable) =>
    let filters := changingFilters e
    let value ← applyFilters ev filters start
    if e.negated then return .bool !value.isTruthy
    else if escape && (escapable || !filters.isEmpty) && !e.isSafe then return escapeValue value
    else return value

/-- Whether two values are equal.  Two numbers are compared as doubles; a number and something
else are neither equal nor different, which `none` stands for. -/
def sameValue? (lhs rhs : Json) : Option Bool :=
  match lhs, rhs with
  | .number a, .number b => some (a.toFloat == b.toFloat)
  | .number _, _ => none
  | _, .number _ => none
  | lhs, rhs => some (lhs.same rhs)

/-- The answer of an operator of logic; none if the question makes no sense. -/
def logicValue? (ev : Evaluators) (escape : Bool) (op : LogicOp) (lhs rhs : Expr) :
    Run (Option Bool) :=
  match op with
  | .disj => do
    if ← ev.condition escape lhs then return some true
    return some (← ev.condition escape rhs)
  | .conj => do
    if ← ev.condition escape lhs then return some (← ev.condition escape rhs)
    return some false
  | .gt | .gte | .lt | .lte => do
    let l ← ev.number escape lhs
    let r ← ev.number escape rhs
    match l, r with
    | some l, some r => return some (compareBy op l.toFloat r.toFloat)
    | _, _ => throw .comparesNaN
  | .eq => do
    let l ← ev.value escape lhs
    let r ← ev.value escape rhs
    return sameValue? l r
  | .notEq => do
    let l ← ev.value escape lhs
    let r ← ev.value escape rhs
    return (sameValue? l r).map (!·)

/-- Whether the term of an expression holds; none if the question makes no sense. -/
def termHolds? (stage : Stage) (ev : Evaluators) (escape : Bool) (e : Expr) :
    Run (Option Bool) :=
  match e.term with
  | .logic op lhs rhs => logicValue? ev escape op lhs rhs
  | .math _ _ _ | .int _ | .float _ => do
    match ← ev.number escape (.of e.term) with
    | some n => return some (n.toFloat != 0)
    | none => return some false
  | .member item container negated => some <$> memberValue ev item container negated
  | .test path negated name args => some <$> putToTest stage ev path negated name args
  | .bool b => return some b
  | .string s => return some !s.isEmpty
  | .call call => do
    match ← callFunction ev call with
    | .bool b => return some b
    | _ => throw (.notABool call.name)
  | .macroCall space name args => do
    return some !(← callMacro stage ev escape space name args).isEmpty
  | .concat _ | .array _ | .ident _ => do return some (← ev.value escape e).isTruthy

/-- Whether an expression holds.  A variable answers as a value, negation included, and what
goes wrong with it counts as false. -/
def conditionStep (stage : Stage) (ev : Evaluators) (escape : Bool) (e : Expr) : Run Bool :=
  match e.term with
  | .ident _ =>
    tryCatch (do return (← ev.value escape e).isTruthy) fun _ => pure false
  | _ => do
    match ← termHolds? stage ev escape e with
    | some answer => return answer != e.negated
    | none => return false

/-- A value in arithmetic. -/
def numberOf (what : NotNumber) : Json → Run (Option Number)
  | .number n => pure (some n)
  | _ => throw (.arithmetic (.notANumber what))

/-- The value of an expression in arithmetic. -/
def numberStep (stage : Stage) (ev : Evaluators) (escape : Bool) (e : Expr) :
    Run (Option Number) :=
  let refuse (what : NotNumber) : Run (Option Number) := throw (.arithmetic (.notANumber what))
  if !e.filters.isEmpty then do numberOf .filteredValue (← ev.value escape e)
  else
    match e.term with
    | .ident path => do numberOf (.variableValue path) (← settle id (← readVariable stage path))
    | .int n => return some (.int n)
    | .float x => return some (.float x)
    | .math op lhs rhs => do
      let l ← ev.number escape lhs
      let r ← ev.number escape rhs
      match l, r with
      | some l, some r => settle .arithmetic (combine op l r fun _ => (lhs.dump, rhs.dump))
      | _, _ => return none
    | .call call => do numberOf (.callValue call.name) (← callFunction ev call)
    | .string s => refuse (.text s)
    | .bool b => refuse (.bool b)
    | .concat parts => refuse (.concatenation (Language.concatSource parts))
    | .test _ _ name _ => refuse (.testAnswer name)
    | _ => refuse .expression

end Stencil.Render
