/-
Quoted text.

Diagnostics show a string between double quotes, with a backslash in front of quotes and
backslashes and with an escape for every character that would not be visible.
-/
import Stencil.Text.Visible

namespace Stencil.Text

/-- The escape of a character by its code point, in hexadecimal between braces. -/
def codePointEscape (c : Char) : List Char :=
  ['\\', 'u', '{'] ++ Nat.toDigits 16 c.toNat ++ ['}']

/-- One character between quotes. -/
def quoteChar (c : Char) : List Char :=
  match c with
  | '"' => ['\\', '"']
  | '\\' => ['\\', '\\']
  | '\n' => ['\\', 'n']
  | '\r' => ['\\', 'r']
  | '\t' => ['\\', 't']
  | '\x00' => ['\\', '0']
  | c => if isVisible c then [c] else codePointEscape c

/-- A text between quotes. -/
def quoteChars (text : List Char) : List Char := '"' :: text.flatMap quoteChar ++ ['"']

/-- A text between quotes. -/
def quote (text : String) : String := String.ofList (quoteChars text.toList)

end Stencil.Text
