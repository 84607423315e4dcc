/-
Sheets: templates that are ready to be rendered.

A sheet is the tree of a template together with what a render looks up by name: its blocks, its
macros, and the other sheets it mentions at its top.  `Sheet.ofText` is the only way from a
text to a sheet; a text that is no template gives the defect that was met first.
-/
import Stencil.Language.Reading
import Stencil.Language.Trim
import Stencil.Text.Lines

namespace Stencil.Language

/-- A macro: its parameters with their defaults, and its body. -/
structure Macro where
  params : List (String × Option Expr)
  body : List Node

/-- A template that is ready to be rendered. -/
structure Sheet where
  nodes : List Node
  /-- The bodies of the blocks that stand at the top or directly inside one another. -/
  blocks : Dict (List Node)
  macros : Dict Macro
  /-- The sheet that this one inherits from. -/
  parent : Option String
  /-- The sheets whose macros are imported, each with the name of its namespace here. -/
  imports : List (String × String)

/-- Why a text is no template. -/
inductive Defect where
  /-- The text does not follow the grammar from the given line on. -/
  | malformed (line : Nat)
  | unreadable (error : ReadingError)
  | duplicateBlock (name : String)
  | duplicateMacro (name : String)
deriving DecidableEq, Repr

namespace Sheet

mutual

/-- Adds the blocks of a node to those found so far. -/
def blocksOfNode (found : Dict (List Node)) : Node → Except Defect (Dict (List Node))
  | .block _ name body _ =>
    if found.hasKey name then .error (.duplicateBlock name)
    else blocksOf (found.insert name body) body
  | _ => .ok found

/-- Adds the blocks of a list of nodes to those found so far. -/
def blocksOf (found : Dict (List Node)) : List Node → Except Defect (Dict (List Node))
  | [] => .ok found
  | node :: rest => do blocksOf (← blocksOfNode found node) rest

end

/-- Adds the macro that a node defines to those found so far. -/
def addMacro (found : Dict Macro) : Node → Except Defect (Dict Macro)
  | .macroDefinition _ name params body _ =>
    if found.hasKey name then .error (.duplicateMacro name)
    else .ok (found.insert name ⟨params, body⟩)
  | _ => .ok found

/-- The sheet that a node inherits from. -/
def parentOf? : Node → Option String
  | .inherits _ file => some file
  | _ => none

/-- The sheet that a node imports. -/
def importOf? : Node → Option (String × String)
  | .imports _ file space => some (file, space)
  | _ => none

/-- The sheet of a list of nodes. -/
def ofNodes (nodes : List Node) : Except Defect Sheet := do
  let blocks ← blocksOf [] nodes
  let macros ← nodes.foldlM addMacro []
  return ⟨nodes, blocks, macros, (nodes.filterMap parentOf?).getLast?,
    nodes.filterMap importOf?⟩

/-- The sheet of a text. -/
def ofText (text : String) : Except Defect Sheet :=
  match parse text.toList with
  | .error furthest => .error (.malformed (Text.lineNumber (text.toList.take furthest)))
  | .ok tree =>
    match readTemplate tree with
    | .error error => .error (.unreadable error)
    | .ok nodes => ofNodes (trimTemplate nodes)

end Sheet

end Stencil.Language
