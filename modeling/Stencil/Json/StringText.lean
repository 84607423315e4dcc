/-
Strings in a JSON text.

A string ends at the first quote that is not escaped.  Its characters are all written out or
escaped, and a pair of escapes may stand for one character above the sixteen-bit range.  A
member that nobody asks for is passed over without decoding it, so an unpaired half of such a
pair counts only where the text of the string is wanted; all other faults count always.
-/
import Stencil.Json.Fault

namespace Stencil.Json

/-- Where reading had to stop: the fault for a reader that wants what is written there, and
the fault for one that only passes over it. -/
structure Break where
  wanted : Fault
  skipped : Fault
deriving DecidableEq, Repr

/-- A stop at which both kinds of reader meet the same fault. -/
def Break.at (fault : Fault) : Break := ⟨fault, fault⟩

/-- The value of a hexadecimal digit. -/
def hexValue? (c : Char) : Option Nat :=
  if c.isDigit then some (c.toNat - '0'.toNat)
  else if 'a' ≤ c ∧ c ≤ 'f' then some (c.toNat - 'a'.toNat + 10)
  else if 'A' ≤ c ∧ c ≤ 'F' then some (c.toNat - 'A'.toNat + 10)
  else none

/-- The value of four hexadecimal digits. -/
def hexUnit? (a b c d : Char) : Option Nat := do
  let a ← hexValue? a
  let b ← hexValue? b
  let c ← hexValue? c
  let d ← hexValue? d
  return ((a * 16 + b) * 16 + c) * 16 + d

/-- The character of an escape that is a backslash and one letter. -/
def shortEscape? : Char → Option Char
  | '"' => some '"'
  | '\\' => some '\\'
  | '/' => some '/'
  | 'b' => some '\x08'
  | 'f' => some '\x0c'
  | 'n' => some '\n'
  | 'r' => some '\r'
  | 't' => some '\t'
  | _ => none

/-- What has been read of a string: its characters, last one first, the first half of a pair of
escapes whose second half is due, and the first unpaired half met so far. -/
structure Partial where
  read : List Char
  lead : Option Nat
  unpaired : Option Fault

namespace Partial

/-- Notes that the second half of a pair did not come. -/
def close (p : Partial) : Partial :=
  match p.lead with
  | none => p
  | some _ => { p with lead := none, unpaired := p.unpaired <|> some .unpairedLead }

/-- Appends a character. -/
def push (p : Partial) (c : Char) : Partial :=
  let p := p.close
  { p with read := c :: p.read }

/-- Appends a sixteen-bit unit, which may be one half of a pair. -/
def pushUnit (p : Partial) (unit : Nat) : Partial :=
  match p.lead with
  | some lead =>
    if 0xDC00 ≤ unit ∧ unit ≤ 0xDFFF then
      let c := Char.ofNat (0x10000 + (lead - 0xD800) * 0x400 + (unit - 0xDC00))
      { p with read := c :: p.read, lead := none }
    else { p with lead := none, unpaired := p.unpaired <|> some .unpairedTrail }
  | none =>
    if 0xDC00 ≤ unit ∧ unit ≤ 0xDFFF then
      { p with unpaired := p.unpaired <|> some .unpairedTrail }
    else if 0xD800 ≤ unit ∧ unit ≤ 0xDBFF then { p with lead := some unit }
    else { p with read := Char.ofNat unit :: p.read }

/-- The text read, or the unpaired half in it. -/
def finish (p : Partial) : Except Fault String :=
  match p.close.unpaired with
  | some fault => .error fault
  | none => .ok (String.ofList p.read.reverse)

/-- The stop at a fault behind what has been read. -/
def stop (p : Partial) (fault : Fault) : Break := ⟨p.unpaired.getD fault, fault⟩

end Partial

/-- The number of bytes of a text, as far as it matters whether four are left. -/
def bytesLeft (cs : List Char) : Nat := ((cs.take 4).map Char.utf8Size).foldl (· + ·) 0

/-- Reads a string behind its opening quote. -/
def scanString (p : Partial) : List Char → Except Break (Except Fault String × List Char)
  | [] => .error (p.stop .endInString)
  | '"' :: rest => .ok (p.finish, rest)
  | '\\' :: [] => .error (p.stop .endInString)
  | '\\' :: 'u' :: a :: b :: c :: d :: rest =>
    match hexUnit? a b c d with
    | some unit => scanString (p.pushUnit unit) rest
    | none => .error (p.stop .badEscape)
  | '\\' :: 'u' :: rest =>
    .error (p.stop (if bytesLeft rest < 4 then .endInString else .badEscape))
  | '\\' :: c :: rest =>
    match shortEscape? c with
    | some x => scanString (p.push x) rest
    | none => .error (p.close.stop .badEscape)
  | c :: rest =>
    if c.toNat < 0x20 then .error (p.close.stop .controlCharacter)
    else scanString (p.push c) rest

end Stencil.Json
