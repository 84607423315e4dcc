/-
How diagnostics show expressions and values.

A few messages name the expression or the value they are about in full, with the kind of every
part in front of it.
-/
import Stencil.Json.Writer
import Stencil.Language.Ast
import Stencil.Text.Quoted

namespace Stencil

/-- The text of a Boolean. -/
def boolName (b : Bool) : String := if b then "true" else "false"

/-- The decimal text of an integer. -/
def intName (n : Int) : String := String.ofList (Json.intText n)

/-- Parts between two delimiters, with commas between them. -/
def listed (opening closing : String) (parts : List String) : String :=
  opening ++ ", ".intercalate parts ++ closing

/-- A record: its name and its fields. -/
def recorded (name : String) (fields : List (String × String)) : String :=
  name ++ " \x7b " ++ ", ".intercalate (fields.map fun f => f.1 ++ ": " ++ f.2) ++ " \x7d"

mutual

/-- A value with the kind of every part. -/
def Json.dump : Json → String
  | .null => "Null"
  | .bool b => "Bool(" ++ boolName b ++ ")"
  | .number n => "Number(" ++ String.ofList (Json.numberText n) ++ ")"
  | .string s => "String(" ++ Text.quote s ++ ")"
  | .array items => "Array " ++ listed "[" "]" (Json.dumpItems items)
  | .object members => "Object " ++ listed "\x7b" "\x7d" (Json.dumpMembers members)

/-- The items of an array. -/
def Json.dumpItems : List Json → List String
  | [] => []
  | item :: items => item.dump :: Json.dumpItems items

/-- The members of an object. -/
def Json.dumpMembers : List (String × Json) → List String
  | [] => []
  | (key, value) :: members =>
    (Text.quote key ++ ": " ++ value.dump) :: Json.dumpMembers members

end

namespace Language

/-- The name of an operator of arithmetic. -/
def MathOp.dump : MathOp → String
  | add => "Add"
  | sub => "Sub"
  | mul => "Mul"
  | div => "Div"
  | modulo => "Modulo"

/-- The name of an operator of logic. -/
def LogicOp.dump : LogicOp → String
  | gt => "Gt"
  | gte => "Gte"
  | lt => "Lt"
  | lte => "Lte"
  | eq => "Eq"
  | notEq => "NotEq"
  | conj => "And"
  | disj => "Or"

mutual

/-- A term with the kind of every part. -/
def Term.dump : Term → String
  | .string s => "String(" ++ Text.quote s ++ ")"
  | .int n => "Int(" ++ intName n ++ ")"
  | .float x => "Float(" ++ String.ofList (Decimal.diagnosticLayout.write x) ++ ")"
  | .bool b => "Bool(" ++ boolName b ++ ")"
  | .ident path => "Ident(" ++ Text.quote path ++ ")"
  | .math op lhs rhs =>
    "Math(" ++ recorded "MathExpr"
      [("lhs", lhs.dump), ("rhs", rhs.dump), ("operator", op.dump)] ++ ")"
  | .logic op lhs rhs =>
    "Logic(" ++ recorded "LogicExpr"
      [("lhs", lhs.dump), ("rhs", rhs.dump), ("operator", op.dump)] ++ ")"
  | .test path negated name args =>
    "Test(" ++ recorded "Test"
      [("ident", Text.quote path), ("negated", boolName negated), ("name", Text.quote name),
       ("args", listed "[" "]" (Expr.dumpAll args))] ++ ")"
  | .macroCall space name args =>
    "MacroCall(" ++ recorded "MacroCall"
      [("namespace", Text.quote space), ("name", Text.quote name),
       ("args", listed "\x7b" "\x7d" (Expr.dumpArgs args))] ++ ")"
  | .call c => "FunctionCall(" ++ c.dump ++ ")"
  | .array items => "Array(" ++ listed "[" "]" (Expr.dumpAll items) ++ ")"
  | .concat parts =>
    "StringConcat(" ++ recorded "StringConcat"
      [("values", listed "[" "]" (Term.dumpAll parts))] ++ ")"
  | .member item container negated =>
    "In(" ++ recorded "In"
      [("lhs", item.dump), ("rhs", container.dump), ("negated", boolName negated)] ++ ")"

/-- The parts of a concatenation. -/
def Term.dumpAll : List Term → List String
  | [] => []
  | t :: ts => t.dump :: Term.dumpAll ts

/-- An expression with the kind of every part. -/
def Expr.dump : Expr → String
  | .mk term negated filters =>
    recorded "Expr" [("val", term.dump), ("negated", boolName negated),
      ("filters", listed "[" "]" (Call.dumpAll filters))]

/-- A list of expressions. -/
def Expr.dumpAll : List Expr → List String
  | [] => []
  | e :: es => e.dump :: Expr.dumpAll es

/-- The arguments of a call. -/
def Expr.dumpArgs : List (String × Expr) → List String
  | [] => []
  | (name, e) :: args => (Text.quote name ++ ": " ++ e.dump) :: Expr.dumpArgs args

/-- A call with the kind of every part. -/
def Call.dump : Call → String
  | .mk name args =>
    recorded "FunctionCall" [("name", Text.quote name),
      ("args", listed "\x7b" "\x7d" (Expr.dumpArgs args))]

/-- A list of calls. -/
def Call.dumpAll : List Call → List String
  | [] => []
  | c :: cs => c.dump :: Call.dumpAll cs

end

/-- A concatenation as it is written in a template, with a placeholder for every part that is
neither a text nor a variable. -/
def concatSource (parts : List Term) : String :=
  " ~ ".intercalate (parts.map fun
    | .string s => "'" ++ s ++ "'"
    | .ident path => path
    | _ => "unknown")

end Language

end Stencil
