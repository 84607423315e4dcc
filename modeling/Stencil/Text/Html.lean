/-
Escaping for HTML.

Six characters could end a piece of text or an attribute value, and each of them is written as
a character reference.
-/
namespace Stencil.Text

/-- One character as it is written in HTML text. -/
def escapeHtmlChar (c : Char) : List Char :=
  match c with
  | '&' => "&amp;".toList
  | '<' => "&lt;".toList
  | '>' => "&gt;".toList
  | '"' => "&quot;".toList
  | '\'' => "&#x27;".toList
  | '/' => "&#x2F;".toList
  | c => [c]

/-- A text as it is written in HTML. -/
def escapeHtml (text : String) : String := String.ofList (text.toList.flatMap escapeHtmlChar)

end Stencil.Text
