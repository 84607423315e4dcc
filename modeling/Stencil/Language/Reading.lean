/-
From the tree of a match to the nodes of a template.

The grammar leaves operators and operands in one row; here they are grouped by precedence.
What can go wrong is an integer that does not fit a signed 64-bit word.
-/
import Stencil.Decimal.Reading
import Stencil.Dict
import Stencil.Json.Value
import Stencil.Language.Ast
import Stencil.Language.Grammar

namespace Stencil.Language

/-- The tree of a match of this grammar. -/
abbrev Parse := Tree Rule

/-- Why the tree of a match is no template. -/
inductive ReadingError where
  | integerOutOfBounds (text : String)
  /-- The tree does not have the form that the grammar gives it. -/
  | shape
deriving DecidableEq, Repr

/-- The wording of an error. -/
def ReadingError.message : ReadingError → String
  | integerOutOfBounds text => "Integer out of bounds: `" ++ text ++ "`"
  | shape => "Unexpected shape of the syntax tree"

/-- What reading gives. -/
abbrev Reading := Except ReadingError

/-- The text of a tree. -/
def textOf (t : Parse) : String := String.ofList t.text

/-- The text between the quotes of a string. -/
def unquoted (t : Parse) : String := String.ofList (t.text.drop 1).dropLast

/-- An integer literal. -/
def readInt (t : Parse) : Reading Int :=
  let (negative, digits) := Decimal.splitSign t.text
  let n : Int := Decimal.digitsValue digits
  let n := if negative then -n else n
  if Number.leastInt ≤ n ∧ n < Number.intLimit then .ok n
  else .error (.integerOutOfBounds (textOf t))

/-- A literal with a fraction. -/
def readFloat (t : Parse) : Float := (Decimal.float? t.text).getD 0.0

/-- A Boolean literal. -/
def readBool (t : Parse) : Bool := t.text.head? == some 't' || t.text.head? == some 'T'

/-- The operator of arithmetic that a rule stands for, and whether it binds tightly. -/
def mathOp? : Rule → Option (Bool × MathOp)
  | .opPlus => some (false, .add)
  | .opMinus => some (false, .sub)
  | .opTimes => some (true, .mul)
  | .opSlash => some (true, .div)
  | .opModulo => some (true, .modulo)
  | _ => none

/-- The operator that joins conditions, and whether it binds tightly. -/
def junction? : Rule → Option (Bool × LogicOp)
  | .opAnd => some (true, .conj)
  | .opOr => some (false, .disj)
  | _ => none

/-- The operator of a comparison. -/
def comparison? : Rule → Option LogicOp
  | .opLte => some .lte
  | .opGte => some .gte
  | .opGt => some .gt
  | .opLt => some .lt
  | .opEq => some .eq
  | .opIneq => some .notEq
  | _ => none

/-- Groups a row of operands.  Both levels of precedence group to the left; `outer` is the
operand and the loose operator that wait for the tight group in `current` to end. -/
def group {α ω : Type} (join : ω → α → α → α) (outer : Option (α × ω)) (current : α) :
    List ((Bool × ω) × α) → α
  | [] =>
    match outer with
    | none => current
    | some (lhs, op) => join op lhs current
  | ((true, op), operand) :: rest => group join outer (join op current operand) rest
  | ((false, op), operand) :: rest =>
    match outer with
    | none => group join (some (current, op)) operand rest
    | some (lhs, before) => group join (some (join before lhs current, op)) operand rest

/-- A row of operands with operators between them: the first operand and the others, each with
the operator in front of it. -/
def splitRow {ω : Type} (operator? : Rule → Option ω) :
    List Parse → Reading (Parse × List (ω × Parse))
  | [] => .error .shape
  | [operand] => .ok (operand, [])
  | operand :: op :: rest =>
    match operator? op.rule with
    | none => .error .shape
    | some op => do
      let (next, others) ← splitRow operator? rest
      return (operand, (op, next) :: others)

/-- The arithmetic of two terms. -/
def joinTerms (op : MathOp) (lhs rhs : Term) : Term := .math op (.of lhs) (.of rhs)

/-- The arithmetic of two expressions. -/
def joinMath (op : MathOp) (lhs rhs : Expr) : Expr := .of (.math op lhs rhs)

/-- The conjunction or disjunction of two conditions. -/
def joinLogic (op : LogicOp) (lhs rhs : Expr) : Expr := .of (.logic op lhs rhs)

/-- Appends a part to a concatenation; literal texts next to each other become one. -/
def appendPart (parts : List Term) (part : Term) : List Term :=
  match part, parts.getLast? with
  | .string s, some (.string r) => parts.dropLast ++ [.string (r ++ s)]
  | _, _ => parts ++ [part]

/-- A concatenation of the given parts, without empty literal texts; one of literal texts alone
is a literal text. -/
def joinParts (parts : List Term) : Term :=
  match parts.foldl appendPart [] with
  | [.string s] => .string s
  | joined =>
    .concat (joined.filter fun
      | .string "" => false
      | _ => true)

/-- Reads every tree of a list. -/
def readAll {α : Type} (read : Parse → Reading α) (ts : List Parse) : Reading (List α) :=
  ts.mapM read

/-- The children of a tree that are of the given rules. -/
def childrenOf (rules : List Rule) (t : Parse) : List Parse :=
  t.children.filter fun child => child.rule ∈ rules

/-- The first child of a tree that is of one of the given rules. -/
def childOf (rules : List Rule) (t : Parse) : Reading Parse :=
  match childrenOf rules t with
  | child :: _ => .ok child
  | [] => .error .shape

mutual

/-- Reads an operand of arithmetic; `fuel` bounds the depth of the tree. -/
def readTerm : (fuel : Nat) → Parse → Reading Term
  | 0, _ => .error .shape
  | fuel + 1, t =>
    match t.rule with
    | .int => do return .int (← readInt t)
    | .float => return .float (readFloat t)
    | .boolean => return .bool (readBool t)
    | .string => return .string (unquoted t)
    | .path => return .ident (textOf t)
    | .test => readTest fuel false t
    | .testNot => readTest fuel true t
    | .fnCall => do return .call (← readCall fuel t)
    | .macroCall => do
      match childrenOf [.ident] t with
      | space :: name :: _ =>
        return .macroCall (textOf space) (textOf name) (← readArgs fuel t)
      | _ => throw .shape
    | .basicExpr => do
      let (first, others) ← splitRow mathOp? t.children
      let first ← readTerm fuel first
      let others ← others.mapM fun (op, operand) => do return (op, ← readTerm fuel operand)
      return group joinTerms none first others
    | .stringConcat => do return joinParts (← readAll (readTerm fuel) t.children)
    | .array => do return .array (← readAll (readExpr fuel) t.children)
    | _ => .error .shape

/-- Reads a test of a variable. -/
def readTest : (fuel : Nat) → (negated : Bool) → Parse → Reading Term
  | 0, _, _ => .error .shape
  | fuel + 1, negated, t => do
    let path ← childOf [.path] t
    let call ← childOf [.testCall] t
    let name ← childOf [.ident] call
    let args ← (childrenOf [.testArg] call).mapM fun arg =>
      match arg.children with
      | value :: _ => readExpr fuel value
      | [] => .error .shape
    return .test (textOf path) negated (textOf name) args

/-- Reads the arguments of a call. -/
def readArgs : (fuel : Nat) → Parse → Reading (List (String × Expr))
  | 0, _ => .error .shape
  | fuel + 1, t => do
    let args ← (childrenOf [.kwarg] t).mapM fun arg => do
      match arg.children with
      | [name, value] => return (textOf name, ← readExpr fuel value)
      | _ => throw .shape
    return Dict.ofPairs args

/-- Reads a function or a filter, with its arguments if it has any. -/
def readCall : (fuel : Nat) → Parse → Reading Call
  | 0, _ => .error .shape
  | fuel + 1, t =>
    match t.rule with
    | .ident => return .mk (textOf t) []
    | .fnCall => do
      let name ← childOf [.ident] t
      return .mk (textOf name) (← readArgs fuel t)
    | .filter =>
      match t.children with
      | call :: _ => readCall fuel call
      | [] => .error .shape
    | _ => .error .shape

/-- Reads a term with its filters. -/
def readFiltered : (fuel : Nat) → Parse → Reading Expr
  | 0, _ => .error .shape
  | fuel + 1, t =>
    match t.children with
    | term :: filters => do
      let term ← readTerm fuel term
      return .mk term false (← readAll (readCall fuel) filters)
    | [] => .error .shape

/-- Reads an expression. -/
def readExpr : (fuel : Nat) → Parse → Reading Expr
  | 0, _ => .error .shape
  | fuel + 1, t =>
    match t.rule with
    | .basicExprFilter | .stringExprFilter | .arrayFilter => readFiltered fuel t
    | .path => return .of (.ident (textOf t))
    | .inCondContainer =>
      match t.children with
      | container :: _ => readExpr fuel container
      | [] => .error .shape
    | .comparisonVal => do
      let (first, others) ← splitRow mathOp? t.children
      let first ← readExpr fuel first
      let others ← others.mapM fun (op, operand) => do return (op, ← readExpr fuel operand)
      return group joinMath none first others
    | .comparisonExpr =>
      match t.children with
      | [operand] => readExpr fuel operand
      | [lhs, op, rhs] => do
        match comparison? op.rule with
        | some op => return .of (.logic op (← readExpr fuel lhs) (← readExpr fuel rhs))
        | none => throw .shape
      | _ => .error .shape
    | .inCond => do
      let item ← childOf [.stringExprFilter, .basicExprFilter] t
      let container ← childOf [.inCondContainer] t
      let negated := !(childrenOf [.opNot] t).isEmpty
      return .of (.member (← readExpr fuel item) (← readExpr fuel container) negated)
    | .logicVal => do
      let value ← childOf [.inCond, .comparisonExpr, .logicExpr] t
      let negated := !(childrenOf [.opNot] t).isEmpty
      return (← readExpr fuel value).withNegation negated
    | .logicExpr => do
      let (first, others) ← splitRow junction? t.children
      let first ← readExpr fuel first
      let others ← others.mapM fun (op, operand) => do return (op, ← readExpr fuel operand)
      return group joinLogic none first others
    | _ => .error .shape

end

/-- The rules whose trees are delimiters at the start of a tag. -/
def openings : List Rule := [.tagStart, .variableStart, .commentStart]

/-- The rules whose trees are delimiters at the end of a tag. -/
def closings : List Rule := [.tagEnd, .variableEnd, .commentEnd]

/-- The margin of a tag: a delimiter with a dash strips white space on its side. -/
def readMargin (t : Parse) : Margin where
  left := (childrenOf openings t).any fun d => d.text.contains '-'
  right := (childrenOf closings t).any fun d => d.text.contains '-'

/-- The margin of the first child of a given rule. -/
def childMargin (rule : Rule) (t : Parse) : Margin :=
  match childrenOf [rule] t with
  | child :: _ => readMargin child
  | [] => {}

/-- The rules whose trees are expressions of any kind. -/
def values : List Rule := [.logicExpr, .arrayFilter, .basicExprFilter]

/-- Reads the expression of a tag. -/
def readValue (fuel : Nat) (t : Parse) : Reading Expr := do
  readExpr fuel (← childOf values t)

/-- Reads a parameter of a macro: its name, and its default if it has one. -/
def readParam (t : Parse) : Reading (String × Option Expr) :=
  match t.children with
  | [name] => return (textOf name, none)
  | [name, value] => do return (textOf name, some (.of (← readTerm 1 value)))
  | _ => .error .shape

/-- The names of the templates that an include may render. -/
def readFiles (t : Parse) : List String :=
  t.children.flatMap fun child =>
    match child.rule with
    | .string => [unquoted child]
    | .stringArray => child.children.map unquoted
    | _ => []

/-- The rules whose trees are parts of a body. -/
def contents : List Rule :=
  [.content, .blockContent, .macroContent, .forContent, .filterSectionContent]

/-- The parts of a conditional: what was read of its branches, and the branch that is being
read, with its condition unless it is the last resort. -/
structure Branches where
  finished : List (Margin × Expr × List Node) := []
  margin : Margin := {}
  condition : Option Expr := none
  body : List Node := []

/-- Ends the branch that is being read. -/
def Branches.finish (b : Branches) : Branches :=
  match b.condition with
  | some c => { finished := b.finished ++ [(b.margin, c, b.body)] }
  | none => { finished := b.finished }

/-- Adds one part of a conditional. -/
def Branches.add (read : Parse → Reading (List Node)) (condition : Parse → Reading Expr)
    (b : Branches) (t : Parse) : Reading Branches :=
  match t.rule with
  | .ifTag | .elifTag => do
    return { b.finish with margin := readMargin t, condition := some (← condition t) }
  | .elseTag => return { b.finish with margin := readMargin t }
  | .endifTag => return b
  | _ => do return { b with body := b.body ++ (← read t) }

mutual

/-- Reads one node; `fuel` bounds the depth of the tree. -/
def readNode : (fuel : Nat) → Parse → Reading (List Node)
  | 0, _ => .error .shape
  | fuel + 1, t =>
    match t.rule with
    | .content | .blockContent | .macroContent | .forContent | .filterSectionContent =>
      readNodes fuel t.children
    | .text => return [.text (textOf t)]
    | .raw => do
      let body ← childOf [.rawText] t
      return [.raw (childMargin .rawTag t) (textOf body) (childMargin .endrawTag t)]
    | .commentTag => return [.comment (readMargin t)]
    | .variableTag => do return [.output (readMargin t) (← readValue fuel t)]
    | .superTag => return [.replaced]
    | .setTag | .setGlobalTag => do
      let name ← childOf [.ident] t
      return [.assign (readMargin t) (textOf name) (← readValue fuel t)
        (t.rule == .setGlobalTag)]
    | .includeTag =>
      return [.includes (readMargin t) (readFiles t) !(childrenOf [.ignoreMissing] t).isEmpty]
    | .extendsTag => do
      return [.inherits (readMargin t) (unquoted (← childOf [.string] t))]
    | .importMacroTag => do
      return [.imports (readMargin t) (unquoted (← childOf [.string] t))
        (textOf (← childOf [.ident] t))]
    | .filterSection => do
      let tag ← childOf [.filterTag] t
      let filter ← readCall fuel (← childOf [.fnCall, .ident] tag)
      return [.filtered (readMargin tag) filter (← readBody fuel t)
        (childMargin .endfilterTag t)]
    | .block => do
      let tag ← childOf [.blockTag] t
      return [.block (readMargin tag) (textOf (← childOf [.ident] tag)) (← readBody fuel t)
        (childMargin .endblockTag t)]
    | .macroDefinition => do
      let tag ← childOf [.macroTag] t
      let head ← childOf [.macroFnWrapper] tag
      let params ← readAll readParam (childrenOf [.macroDefArg] head)
      return [.macroDefinition (readMargin tag) (textOf (← childOf [.ident] head))
        (Dict.ofPairs params) (← readBody fuel t) (childMargin .endmacroTag t)]
    | .forloop => do
      let tag ← childOf [.forTag] t
      let container ← readValue fuel tag
      let body := t.children.takeWhile fun child => child.rule != .elseTag
      let tail := t.children.reverse.takeWhile fun child => child.rule != .elseTag
      let otherwise ←
        if (childrenOf [.elseTag] t).isEmpty then pure none
        else some <$> readNodes fuel (tail.reverse.filter fun child => child.rule ∈ contents)
      let body ← readNodes fuel (body.filter fun child => child.rule ∈ contents)
      let margin := readMargin tag
      let closing := childMargin .endforTag t
      match childrenOf [.ident] tag with
      | [value] => return [.loop margin none (textOf value) container body otherwise closing]
      | [key, value] =>
        return [.loop margin (some (textOf key)) (textOf value) container body otherwise closing]
      | _ => throw .shape
    | .contentIf | .blockIf | .macroIf | .forIf | .filterSectionIf => do
      let b ← t.children.foldlM (Branches.add (readNode fuel) (readValue fuel)) {}
      let closing := childMargin .endifTag t
      match b.condition with
      | some _ => return [.choose b.finish.finished none closing]
      | none => return [.choose b.finished (some (b.margin, b.body)) closing]
    | .breakTag => return [.leave (readMargin t)]
    | .continueTag => return [.next (readMargin t)]
    | _ => return []

/-- Reads the nodes of a list of trees. -/
def readNodes : (fuel : Nat) → List Parse → Reading (List Node)
  | 0, _ => .error .shape
  | fuel + 1, ts => do return (← ts.mapM (readNode fuel)).flatten

/-- Reads the body of a compound. -/
def readBody : (fuel : Nat) → Parse → Reading (List Node)
  | 0, _ => .error .shape
  | fuel + 1, t => readNodes fuel (childrenOf contents t)

end

mutual

/-- The number of levels of a tree. -/
def depth : Parse → Nat
  | .node _ _ children => depths children + 1

/-- The number of levels of the highest tree of a list. -/
def depths : List Parse → Nat
  | [] => 0
  | t :: ts => max (depth t) (depths ts)

end

/-- Reads a template.  Comments in front of everything else leave no trace. -/
def readTemplate (t : Parse) : Reading (List Node) :=
  readNodes (3 * depth t + 3) (t.children.filter fun child => child.rule != .commentTag)

end Stencil.Language
