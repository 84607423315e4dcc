/-
Engines.

An engine holds the sheets that a render can reach, each under its key.  The texts are parsed in
the order in which they are given, and a later text under a key replaces an earlier one; then
every sheet that another one mentions has to be there.
-/
import Stencil.Engine.Fault
import Stencil.Render.Page

namespace Stencil

open Stencil.Language (Sheet)

/-- The sheets that a render can reach. -/
structure Engine where
  sheets : Dict Sheet

namespace Engine

/-- The key of the template that is rendered. -/
def rootKey : String := "__hgn_root"

/-- The key of a template that is only checked. -/
def checkKey : String := "__hgn_check"

/-- The key of the partial with a given name in the template with a given key. -/
def childKey (key name : String) : String := key ++ ">" ++ name

/-- Parses a text and puts the sheet under its key, in place of one that is there. -/
def register (sheets : Dict Sheet) (entry : String × String) : Except EngineFault (Dict Sheet) :=
  match Sheet.ofText entry.2 with
  | .ok sheet => .ok (sheets.insert entry.1 sheet)
  | .error defect => .error (.defective entry.1 defect)

/-- Parses texts in order and adds the sheets to those that are there. -/
def parseAll (sheets : Dict Sheet) (texts : List (String × String)) :
    Except EngineFault (Dict Sheet) :=
  texts.foldlM register sheets

/-- Follows the parents of a sheet.  `met` lists the parents of `start` found so far, and
`fuel` bounds their number. -/
def checkParents (sheets : Dict Sheet) (start : String) :
    (fuel : Nat) → (key : String) → (met : List String) → Except EngineFault Unit
  | 0, _, met => .error (.circularParents start met)
  | fuel + 1, key, met =>
    if !met.isEmpty && key == start then .error (.circularParents start met)
    else
      match (sheets.get? key).bind Sheet.parent with
      | none => .ok ()
      | some parent =>
        if sheets.hasKey parent then checkParents sheets start fuel parent (met ++ [parent])
        else .error (.missingParent key parent)

/-- Requires the sheets whose macros a sheet imports. -/
def checkImports (sheets : Dict Sheet) (key : String) (sheet : Sheet) : Except EngineFault Unit :=
  match sheet.imports.find? fun i => !sheets.hasKey i.1 with
  | some (file, _) => .error (.missingImport key file)
  | none => .ok ()

/-- The engine of some texts. -/
def ofTexts (texts : List (String × String)) : Except EngineFault Engine := do
  let sheets ← parseAll [] texts
  sheets.forM fun entry => checkParents sheets entry.1 (sheets.length + 1) entry.1 []
  sheets.forM fun entry => checkImports sheets entry.1 entry.2
  return ⟨sheets⟩

/-- What the root template of an engine prints. -/
def page (e : Engine) (escape : Bool) (given : Dict Json) : Except Render.PageFault String :=
  Render.page ⟨e.sheets, given⟩ escape rootKey

/-- Replaces every occurrence of one text by another. -/
def reword (old new message : String) : String :=
  String.ofList (Text.replace old.toList new.toList message.toList)

/-- What stands in place of the outermost wording of a failed render. -/
def renderFailed : String := "Template rendering failed"

/-- What stands in place of the outermost wording of a failed check. -/
def checkFailed : String := "Template syntax error"

/-- A message in the words of the user, who knows the template by its name and not by a key. -/
def forUser (name message : String) : String :=
  let message := reword ("Failed to render '" ++ rootKey ++ "'") renderFailed message
  let message := reword ("Failed to parse '" ++ checkKey ++ "'") checkFailed message
  let message := reword checkKey name (reword rootKey name message)
  String.ofList (Text.trim message.toList)

/-- Whether a message says anything. -/
def isTelling (message : String) : Bool :=
  !message.isEmpty && message != renderFailed && message != checkFailed

/-- A chain of messages as one text.  A message that says nothing, or nothing new, is left
out. -/
def explain (name : String) (messages : List String) : String :=
  match ((messages.map (forUser name)).filter isTelling).eraseDups with
  | [] => checkFailed
  | telling => "\n  → ".intercalate telling

/-- The error for a template that cannot be compiled or prepared for a render. -/
def compileError (name : String) (fault : EngineFault) : Error :=
  .compile name (explain name (fault.remarks.map Remark.words)) (Remark.lineOf fault.remarks)

/-- The error for a render that failed. -/
def renderError (name : String) (fault : Render.PageFault) : Error :=
  .render name (explain name fault.chain)

end Engine

end Stencil
