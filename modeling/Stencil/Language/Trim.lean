/-
White space control.

A dash inside a delimiter strips the white space of the text next to it: `{%-` the end of the
text in front of the tag, `-%}` the start of the text behind it.  Inside a tag with a body the
opening part strips the start of the body and the closing part its end.  Text that becomes
empty is dropped.
-/
import Stencil.Language.Ast
import Stencil.Text.Blank

namespace Stencil.Language

/-- A text node without white space at its start, or nothing if it was only white space. -/
def stripStart (s : String) : List Node :=
  match Text.trimStart s.toList with
  | [] => []
  | rest => [.text (String.ofList rest)]

/-- Strips the end of the last node if it is text.  The nodes are in reverse order. -/
def stripLast : List Node → List Node
  | .text s :: before =>
    match Text.trimEnd s.toList with
    | [] => before
    | rest => .text (String.ofList rest) :: before
  | nodes => nodes

/-- Strips the end of a body whose last node is text. -/
def stripEnd (body : List Node) : List Node := (stripLast body.reverse).reverse

/-- The body of the last branch, stripped at its end. -/
def stripLastBranch (branches : List (Margin × Expr × List Node)) :
    List (Margin × Expr × List Node) :=
  match branches.reverse with
  | (m, c, body) :: before => (before.reverse) ++ [(m, c, stripEnd body)]
  | [] => []

/-- The nodes that are done, last one first; whether the node in front was text; and whether
the next text is to be stripped at its start. -/
structure Trimming where
  done : List Node := []
  afterText : Bool := false
  stripNext : Bool := false

namespace Trimming

/-- Meets a tag with the given margins: its left one concerns the text in front of it, its
right one the text behind it. -/
def meet (t : Trimming) (left right : Bool) : Trimming where
  done := if t.afterText && left then stripLast t.done else t.done
  afterText := false
  stripNext := right

/-- Adds a finished node. -/
def add (t : Trimming) (n : Node) : Trimming := { t with done := n :: t.done }

/-- Adds text. -/
def addText (t : Trimming) (s : String) : Trimming :=
  { done := (if t.stripNext then stripStart s else [.text s]) ++ t.done
    afterText := true
    stripNext := false }

end Trimming

/-- Raw text, stripped on the sides that its delimiters ask for. -/
def stripRaw (start stop : Bool) (s : String) : String :=
  let text := s.toList
  let text := if start then Text.trimStart text else text
  String.ofList (if stop then Text.trimEnd text else text)

mutual

/-- Adds one node. -/
def trimNode (t : Trimming) : Node → Trimming
  | .text s => t.addText s
  | .raw opening s closing =>
    (t.meet opening.left closing.right).add
      (.raw opening (stripRaw opening.right closing.left s) closing)
  | .comment m => (t.meet m.left m.right).add (.comment m)
  | .output m e => (t.meet m.left m.right).add (.output m e)
  | .assign m name e g => (t.meet m.left m.right).add (.assign m name e g)
  | .includes m files mayMiss => (t.meet m.left m.right).add (.includes m files mayMiss)
  | .inherits m file => (t.meet m.left m.right).add (.inherits m file)
  | .imports m file space => (t.meet m.left m.right).add (.imports m file space)
  | .leave m => (t.meet m.left m.right).add (.leave m)
  | .next m => (t.meet m.left m.right).add (.next m)
  | .replaced => { t with done := .replaced :: t.done, afterText := false }
  | .filtered opening filter body closing =>
    let body := trimBody opening.right closing.left body
    (t.meet opening.left closing.right).add (.filtered opening filter body closing)
  | .block opening name body closing =>
    let body := trimBody opening.right closing.left body
    (t.meet opening.left closing.right).add (.block opening name body closing)
  | .loop opening key value container body otherwise closing =>
    let body := trimBody opening.right closing.left body
    (t.meet opening.left closing.right).add
      (.loop opening key value container body otherwise closing)
  | .macroDefinition opening name params body closing =>
    let body := trimBody opening.right closing.left body
    (t.meet opening.left closing.right).add (.macroDefinition opening name params body closing)
  | .choose branches otherwise closing =>
    let left := (branches.head?.map fun branch => branch.1.left).getD false
    let branches := trimBranches [] branches
    let t := t.meet left closing.right
    match otherwise with
    | some (m, body) =>
      let branches := if m.left then stripLastBranch branches else branches
      t.add (.choose branches (some (m, trimBody m.right closing.left body)) closing)
    | none =>
      let branches := if closing.left then stripLastBranch branches else branches
      t.add (.choose branches none closing)

/-- Adds the branches of a conditional to those in front of them.  A branch that strips to its
left strips the end of the branch in front. -/
def trimBranches (before : List (Margin × Expr × List Node)) :
    List (Margin × Expr × List Node) → List (Margin × Expr × List Node)
  | [] => before
  | (m, c, body) :: rest =>
    let before := if m.left then stripLastBranch before else before
    trimBranches (before ++ [(m, c, trimBody m.right false body)]) rest

/-- Adds nodes one after another. -/
def trimNodes (t : Trimming) : List Node → Trimming
  | [] => t
  | n :: ns => trimNodes (trimNode t n) ns

/-- A body, stripped at its start and at its end as asked. -/
def trimBody (left right : Bool) (body : List Node) : List Node :=
  let done := (trimNodes { stripNext := left } body).done
  (if right then stripLast done else done).reverse

end

/-- The nodes of a template with white space control applied. -/
def trimTemplate (nodes : List Node) : List Node := trimBody false false nodes

end Stencil.Language
