/-
What keeps a set of templates from being rendered.

A fault is told in remarks, the outermost one first.  A remark is a sentence or a position in
the text of a template, and the first position named in any of them is the line that the whole
fault is attributed to.  Sentences are searched in their quoted form, where the escape of a null
character ends in a digit.
-/
import Stencil.Error
import Stencil.Json.Value
import Stencil.Language.Sheet
import Stencil.Text.Digit
import Stencil.Text.Quoted

namespace Stencil

/-- A sentence about a fault, or the line at which it was found. -/
inductive Remark where
  | sentence (text : String)
  | position (line : Nat)
deriving DecidableEq, Repr

namespace Remark

/-- The words of a remark. -/
def words : Remark → String
  | sentence text => text
  | position line => "--> " ++ natText line

/-- The first number in a text that a colon and another number follow; `run` holds the digits
just passed, the last one first. -/
def mark? (run : List Char) : List Char → Option (List Char)
  | [] => none
  | c :: cs =>
    if Text.isDigit c then mark? (c :: run) cs
    else if c = ':' && !run.isEmpty && (cs.head?.map Text.isDigit).getD false then
      some run.reverse
    else mark? [] cs

/-- The line that a remark names.  The outer option tells whether there is a position at all,
the inner one whether its line is a number that fits a word. -/
def line? : Remark → Option (Option Nat)
  | position line => some (some line)
  | sentence text =>
    (mark? [] (Text.quoteChars text.toList)).map fun digits =>
      match Text.decimal? digits with
      | some n => if (n : Int) < Number.natLimit then some n else none
      | none => none

/-- The line that a row of remarks is attributed to. -/
def lineOf (remarks : List Remark) : Option Nat := (remarks.findSome? line?).join

end Remark

/-- Why a set of templates cannot be rendered.  Templates are named by their keys. -/
inductive EngineFault where
  | defective (key : String) (defect : Language.Defect)
  | missingParent (key parent : String)
  | circularParents (key : String) (chain : List String)
  | missingImport (key file : String)

namespace EngineFault

/-- The remark about a defect. -/
def defectRemark : Language.Defect → Remark
  | .malformed line => .position line
  | .unreadable error => .sentence error.message
  | .duplicateBlock name => .sentence ("Block `" ++ name ++ "` is duplicated")
  | .duplicateMacro name => .sentence ("Macro `" ++ name ++ "` is duplicated")

/-- The remarks about a fault. -/
def remarks : EngineFault → List Remark
  | defective key defect => [.sentence ("Failed to parse '" ++ key ++ "'"), defectRemark defect]
  | missingParent key parent =>
    [.sentence ("Template '" ++ key ++ "' is inheriting from '" ++ parent ++
      "', which doesn't exist or isn't loaded.")]
  | circularParents key chain =>
    [.sentence ("Circular extend detected for template '" ++ key ++
      "'. Inheritance chain: `[" ++ ", ".intercalate (chain.map Text.quote) ++ "]`")]
  | missingImport key file =>
    [.sentence ("Template `" ++ key ++ "` loads macros from `" ++ file ++
      "` which isn't present in Tera")]

end EngineFault

end Stencil
