/-
Filters on text.
-/
import Stencil.Render.Filter.Fault
import Stencil.Text.Blank
import Stencil.Text.Case
import Stencil.Text.Html
import Stencil.Text.Search

namespace Stencil.Render.Filter

/-- A filter that maps characters to characters. -/
def onText (name : String) (f : List Char → List Char) : Filter := fun found _ => do
  return .string (String.ofList (f (← value name .text found).toList))

/-- Replaces a written `\n` by a line feed and a written `\t` by a tab. -/
def unescape (text : String) : List Char :=
  Text.replace ['\\', 't'] ['\t'] (Text.replace ['\\', 'n'] ['\n'] text.toList)

/-- An argument on which text is matched. -/
def pattern (name : String) (args : Dict Json) : Except FilterFault (List Char) :=
  unescape <$> argument name "pat" .text (.expectsArgument name "pat") args

/-- A filter that maps characters to characters with the help of a pattern. -/
def withPattern (name : String) (f : List Char → List Char → List Char) : Filter :=
  fun found args => do
    let text ← value name .text found
    return .string (String.ofList (f (← pattern name args) text.toList))

/-- Puts a backslash in front of quotes and backslashes. -/
def addSlashes (text : List Char) : List Char :=
  text.flatMap fun c => if c = '\\' ∨ c = '"' ∨ c = '\'' then ['\\', c] else [c]

/-- Writes line ends as line breaks of HTML. -/
def lineBreaks (text : List Char) : List Char :=
  let tag := "<br>".toList
  Text.replace ['\n'] tag (Text.replace ['\r', '\n'] tag text)

/-- Counts the words of a text. -/
def wordCount : Filter := fun found _ => do
  let text ← value "wordcount" .text found
  return .int (Text.words text.toList).length

/-- Replaces one text by another. -/
def replace : Filter := fun found args => do
  let text ← value "replace" .text found
  let old ← argument "replace" "from" .text (.expectsArgument "replace" "from") args
  let new ← argument "replace" "to" .text (.expectsArgument "replace" "to") args
  return .string (String.ofList (Text.replace old.toList new.toList text.toList))

/-- Escapes a text for HTML. -/
def escape : Filter := fun found _ => do
  return .string (Text.escapeHtml (← value "escape_html" .text found))

/-- Splits a text at the occurrences of a pattern. -/
def split : Filter := fun found args => do
  let text ← value "split" .text found
  let pieces := Text.split (← pattern "split" args) text.toList
  return .array (pieces.map fun piece => .string (String.ofList piece))

/-- The filters on text. -/
def onText? : String → Option Filter
  | "upper" => some (onText "upper" Text.upper)
  | "lower" => some (onText "lower" Text.lower)
  | "capitalize" => some (onText "capitalize" Text.capitalize)
  | "trim" => some (onText "trim" Text.trim)
  | "trim_start" => some (onText "trim_start" Text.trimStart)
  | "trim_end" => some (onText "trim_end" Text.trimEnd)
  | "trim_start_matches" => some (withPattern "trim_start_matches" Text.dropRepeated)
  | "trim_end_matches" => some (withPattern "trim_end_matches" Text.dropRepeatedEnd)
  | "addslashes" => some (onText "addslashes" addSlashes)
  | "linebreaksbr" => some (onText "linebreaksbr" lineBreaks)
  | "wordcount" => some wordCount
  | "replace" => some replace
  | "escape" => some escape
  | "split" => some split
  | _ => none

end Stencil.Render.Filter
