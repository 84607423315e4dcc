/-
Templates as trees of nodes.

A node is a piece of text or a tag with everything that belongs to it; an expression is a term
with the filters that are applied to it and perhaps a negation.  Every tag knows its margins:
whether it strips the white space of the text in front of it and behind it.
-/
namespace Stencil.Language

/-- The operators of arithmetic. -/
inductive MathOp where
  | add
  | sub
  | mul
  | div
  | modulo
deriving DecidableEq, Repr, Inhabited

/-- The operators of logic. -/
inductive LogicOp where
  | gt
  | gte
  | lt
  | lte
  | eq
  | notEq
  | conj
  | disj
deriving DecidableEq, Repr, Inhabited

mutual

/-- What an expression starts from. -/
inductive Term where
  | string (text : String)
  | int (value : Int)
  | float (value : Float)
  | bool (value : Bool)
  /-- A variable, or a place inside one. -/
  | ident (path : String)
  | math (op : MathOp) (lhs rhs : Expr)
  | logic (op : LogicOp) (lhs rhs : Expr)
  | test (path : String) (negated : Bool) (name : String) (args : List Expr)
  | macroCall (space name : String) (args : List (String × Expr))
  | call (call : Call)
  | array (items : List Expr)
  | concat (parts : List Term)
  | member (item container : Expr) (negated : Bool)

/-- A term, whether it is negated, and the filters applied to it, the first one first. -/
inductive Expr where
  | mk (term : Term) (negated : Bool) (filters : List Call)

/-- A filter or a function with its arguments, in the order of their names. -/
inductive Call where
  | mk (name : String) (args : List (String × Expr))

end

instance : Inhabited Term := ⟨.bool false⟩
instance : Inhabited Expr := ⟨.mk (.bool false) false []⟩
instance : Inhabited Call := ⟨.mk "" []⟩

namespace Call

/-- The name of a call. -/
def name : Call → String
  | mk n _ => n

/-- The arguments of a call. -/
def args : Call → List (String × Expr)
  | mk _ a => a

end Call

namespace Expr

/-- The term of an expression. -/
def term : Expr → Term
  | mk t _ _ => t

/-- Whether an expression is negated. -/
def negated : Expr → Bool
  | mk _ n _ => n

/-- The filters of an expression. -/
def filters : Expr → List Call
  | mk _ _ f => f

/-- A term by itself. -/
def of (t : Term) : Expr := mk t false []

/-- The expression with the given negation in place of its own. -/
def withNegation (n : Bool) : Expr → Expr
  | mk t _ f => mk t n f

/-- Whether the first filter supplies a value for a missing one. -/
def hasDefault (e : Expr) : Bool := (e.filters.head?.map (·.name == "default")).getD false

/-- Whether the last filter vouches for the value. -/
def isSafe (e : Expr) : Bool := (e.filters.getLast?.map (·.name == "safe")).getD false

end Expr

/-- Which sides of a tag strip the white space next to it. -/
structure Margin where
  left : Bool := false
  right : Bool := false
deriving DecidableEq, Repr, Inhabited

/-- A piece of a template.  A tag that encloses other nodes has a margin for its opening and
one for its closing part. -/
inductive Node where
  | text (text : String)
  /-- Text that is not searched for tags. -/
  | raw (opening : Margin) (text : String) (closing : Margin)
  | comment (margin : Margin)
  /-- Prints a value. -/
  | output (margin : Margin) (value : Expr)
  | assign (margin : Margin) (name : String) (value : Expr) (isGlobal : Bool)
  /-- Renders the first of several templates that exists. -/
  | includes (margin : Margin) (files : List String) (mayMiss : Bool)
  | inherits (margin : Margin) (file : String)
  | imports (margin : Margin) (file space : String)
  /-- Renders a body and filters the result. -/
  | filtered (opening : Margin) (filter : Call) (body : List Node) (closing : Margin)
  | block (opening : Margin) (name : String) (body : List Node) (closing : Margin)
  /-- Renders a body for every item of a container, or another one if there is none. -/
  | loop (opening : Margin) (key : Option String) (value : String) (container : Expr)
      (body : List Node) (otherwise : Option (List Node)) (closing : Margin)
  /-- Renders the body of the first branch whose condition holds. -/
  | choose (branches : List (Margin × Expr × List Node))
      (otherwise : Option (Margin × List Node)) (closing : Margin)
  | macroDefinition (opening : Margin) (name : String) (params : List (String × Option Expr))
      (body : List Node) (closing : Margin)
  /-- Ends the innermost loop. -/
  | leave (margin : Margin)
  /-- Goes to the next item of the innermost loop. -/
  | next (margin : Margin)
  /-- Renders the block that this one replaces. -/
  | replaced
deriving Inhabited

end Stencil.Language
