/-
Writing JSON.

There are two forms: the compact one on a single line, and the indented one with two spaces
for each level.  Both show object members in the order of their keys and escape only what a
JSON string must escape.
-/
import Stencil.Decimal.Layout
import Stencil.Json.Value

namespace Stencil.Json

/-- Doubles in JSON: an exponent below `1e-5` and from `1e16` on, always with its sign, and a
fraction in every other number. -/
def floatLayout : Decimal.Layout := ⟨some (-5, 15), true, true, .even⟩

/-- The text of an integer. -/
def intText (n : Int) : List Char :=
  if n < 0 then '-' :: Decimal.natDigits n.natAbs else Decimal.natDigits n.natAbs

/-- The text of a number. -/
def numberText : Number → List Char
  | .int n => intText n
  | .float x => floatLayout.write x

/-- A hexadecimal digit in lower case. -/
def hexDigit (n : Nat) : Char :=
  if n < 10 then Char.ofNat ('0'.toNat + n) else Char.ofNat ('a'.toNat + (n - 10))

/-- One character of a string: quotes, backslashes and control characters are escaped. -/
def escapeChar (c : Char) : List Char :=
  if c = '"' then ['\\', '"']
  else if c = '\\' then ['\\', '\\']
  else if 0x20 ≤ c.toNat then [c]
  else if c = '\x08' then ['\\', 'b']
  else if c = '\x0c' then ['\\', 'f']
  else if c = '\n' then ['\\', 'n']
  else if c = '\r' then ['\\', 'r']
  else if c = '\t' then ['\\', 't']
  else ['\\', 'u', '0', '0', hexDigit (c.toNat / 16), hexDigit (c.toNat % 16)]

/-- A string between quotes. -/
def stringText (text : List Char) : List Char := '"' :: text.flatMap escapeChar ++ ['"']

/-- The text of a Boolean. -/
def boolText (b : Bool) : List Char := (if b then "true" else "false").toList

mutual

/-- The compact form of a value. -/
def compactChars : Json → List Char
  | null => "null".toList
  | bool b => boolText b
  | number n => numberText n
  | string s => stringText s.toList
  | array items => '[' :: compactItems items
  | object members => '{' :: compactMembers members

/-- The items of an array in compact form, up to the closing bracket. -/
def compactItems : List Json → List Char
  | [] => [']']
  | item :: rest =>
    compactChars item ++ (if rest.isEmpty then [] else [',']) ++ compactItems rest

/-- The members of an object in compact form, up to the closing brace. -/
def compactMembers : List (String × Json) → List Char
  | [] => ['}']
  | (key, value) :: rest =>
    stringText key.toList ++ ':' :: compactChars value ++
      (if rest.isEmpty then [] else [',']) ++ compactMembers rest

end

/-- The start of a line at a depth of nesting. -/
def newline (depth : Nat) : List Char := '\n' :: List.replicate (2 * depth) ' '

mutual

/-- The indented form of a value that stands at the given depth. -/
def indentedChars (depth : Nat) : Json → List Char
  | null => "null".toList
  | bool b => boolText b
  | number n => numberText n
  | string s => stringText s.toList
  | array [] => ['[', ']']
  | array (item :: rest) =>
    '[' :: newline (depth + 1) ++ indentedChars (depth + 1) item ++ indentedItems depth rest
  | object [] => ['{', '}']
  | object ((key, value) :: rest) =>
    '{' :: newline (depth + 1) ++ stringText key.toList ++ ':' :: ' ' ::
      indentedChars (depth + 1) value ++ indentedMembers depth rest

/-- The further items of an array, up to the closing bracket. -/
def indentedItems (depth : Nat) : List Json → List Char
  | [] => newline depth ++ [']']
  | item :: rest =>
    ',' :: newline (depth + 1) ++ indentedChars (depth + 1) item ++ indentedItems depth rest

/-- The further members of an object, up to the closing brace. -/
def indentedMembers (depth : Nat) : List (String × Json) → List Char
  | [] => newline depth ++ ['}']
  | (key, value) :: rest =>
    ',' :: newline (depth + 1) ++ stringText key.toList ++ ':' :: ' ' ::
      indentedChars (depth + 1) value ++ indentedMembers depth rest

end

/-- The compact form of a value. -/
def compact (value : Json) : String := String.ofList (compactChars value)

/-- The indented form of a value. -/
def indented (value : Json) : String := String.ofList (indentedChars 0 value)

end Stencil.Json
