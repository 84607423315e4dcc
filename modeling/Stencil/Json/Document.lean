/-
JSON texts as documents.

A document is what a text holds as far as it can be read: the tree of its values, cut off at
the first place that is no JSON.  A decoder walks the document in the order of the text, so
that of a value of the wrong kind and a fault of the text it reports the one that comes first.
-/
import Stencil.Json.NumberText
import Stencil.Json.StringText

namespace Stencil.Json

/-- The readable part of a JSON text.  Arrays and objects may be cut off behind any of their
parts, and a value that cannot be read at all is `broken`. -/
inductive Document where
  | null
  | bool (value : Bool)
  | number (value : Except Fault Number)
  | string (text : Except Fault String)
  | array (items : List Document) (stop : Option Break)
  | object (members : List (Except Fault String × Document)) (stop : Option Break)
  | broken (stop : Break)
deriving Inhabited

namespace Document

/-- The white space of JSON. -/
def isSpace (c : Char) : Bool := c = ' ' || c = '\n' || c = '\t' || c = '\r'

/-- Passes over white space. -/
def skipSpace (cs : List Char) : List Char := cs.dropWhile isSpace

/-- A value and the text behind it, or the stop in it. -/
abbrev Scan := Document × Except Break (List Char)

/-- A value that cannot be read. -/
def fail (stop : Break) : Scan := (.broken stop, .error stop)

/-- Reads the rest of a word that stands for a value. -/
def scanWord (value : Document) : List Char → List Char → Scan
  | [], rest => (value, .ok rest)
  | _ :: _, [] => fail (.at .endInValue)
  | w :: ws, c :: cs => if w = c then scanWord value ws cs else fail (.at .unknownWord)

/-- The stop of a scan, if it has one. -/
def stop? {α : Type} : Except Break α → Option Break
  | .error stop => some stop
  | .ok _ => none

mutual

/-- Reads one value; `fuel` bounds the number of steps. -/
def scan : (fuel : Nat) → List Char → Scan
  | 0, _ => fail (.at .endInValue)
  | fuel + 1, cs =>
    match skipSpace cs with
    | [] => fail (.at .endInValue)
    | 'n' :: rest => scanWord .null ['u', 'l', 'l'] rest
    | 't' :: rest => scanWord (.bool true) ['r', 'u', 'e'] rest
    | 'f' :: rest => scanWord (.bool false) ['a', 'l', 's', 'e'] rest
    | '"' :: rest =>
      match scanString ⟨[], none, none⟩ rest with
      | .ok (text, rest) => (.string text, .ok rest)
      | .error stop => fail stop
    | '[' :: rest =>
      let (items, stop) := scanItems fuel true rest
      (.array items (stop? stop), stop)
    | '{' :: rest =>
      let (members, stop) := scanMembers fuel true rest
      (.object members (stop? stop), stop)
    | c :: rest =>
      if c = '-' ∨ c.isDigit then
        match scanNumber (c :: rest) with
        | .ok (value, rest) => (.number value, .ok rest)
        | .error fault => fail (.at fault)
      else fail (.at .notAValue)

/-- Reads the items of an array up to its end. -/
def scanItems : (fuel : Nat) → (first : Bool) → List Char →
    List Document × Except Break (List Char)
  | 0, _, _ => ([], .error (.at .endInArray))
  | fuel + 1, first, cs =>
    match skipSpace cs with
    | [] => ([], .error (.at .endInArray))
    | ']' :: rest => ([], .ok rest)
    | c :: rest =>
      if first then scanItem fuel (c :: rest)
      else if c = ',' then
        match skipSpace rest with
        | [] => ([], .error (.at .endInValue))
        | ']' :: _ => ([], .error (.at .trailingComma))
        | more => scanItem fuel more
      else ([], .error (.at .missingCommaInArray))

/-- Reads an item and those behind it. -/
def scanItem : (fuel : Nat) → List Char → List Document × Except Break (List Char)
  | 0, _ => ([], .error (.at .endInArray))
  | fuel + 1, cs =>
    match scan fuel cs with
    | (item, .error stop) => ([item], .error stop)
    | (item, .ok rest) =>
      let (items, stop) := scanItems fuel false rest
      (item :: items, stop)

/-- Reads the members of an object up to its end. -/
def scanMembers : (fuel : Nat) → (first : Bool) → List Char →
    List (Except Fault String × Document) × Except Break (List Char)
  | 0, _, _ => ([], .error (.at .endInObject))
  | fuel + 1, first, cs =>
    match skipSpace cs with
    | [] => ([], .error (.at .endInObject))
    | '}' :: rest => ([], .ok rest)
    | c :: rest =>
      if first then scanMember fuel (c :: rest)
      else if c = ',' then
        match skipSpace rest with
        | [] => ([], .error (.at .endInValue))
        | '}' :: _ => ([], .error (.at .trailingComma))
        | more => scanMember fuel more
      else ([], .error (.at .missingCommaInObject))

/-- Reads a member and those behind it. -/
def scanMember : (fuel : Nat) → List Char →
    List (Except Fault String × Document) × Except Break (List Char)
  | 0, _ => ([], .error (.at .endInObject))
  | fuel + 1, cs =>
    match cs with
    | '"' :: rest =>
      match scanString ⟨[], none, none⟩ rest with
      | .error stop => ([], .error stop)
      | .ok (key, rest) =>
        match skipSpace rest with
        | ':' :: rest =>
          match scan fuel rest with
          | (value, .error stop) => ([(key, value)], .error stop)
          | (value, .ok rest) =>
            let (members, stop) := scanMembers fuel false rest
            ((key, value) :: members, stop)
        | [] => ([(key, .broken (.at .endInObject))], .error (.at .endInObject))
        | _ :: _ => ([(key, .broken (.at .missingColon))], .error (.at .missingColon))
    | _ => ([], .error (.at .keyNotAString))

end

/-- What is read as a value does not depend on the white space in front of it. -/
theorem scan_congr {cs cs' : List Char} (h : skipSpace cs = skipSpace cs') (fuel : Nat) :
    scan fuel cs = scan fuel cs' := by
  cases fuel with
  | zero => rfl
  | succ fuel => rw [scan, scan, h]

/-- A whole text: the document in it, and whether anything but white space follows. -/
def ofText (text : List Char) : Document × Bool :=
  match scan (3 * text.length + 3) text with
  | (document, .ok rest) => (document, !(skipSpace rest).isEmpty)
  | (document, .error _) => (document, false)

mutual

/-- The document of a value. -/
def ofJson : Json → Document
  | .null => .null
  | .bool b => .bool b
  | .number n => .number (.ok n)
  | .string s => .string (.ok s)
  | .array items => .array (ofItems items) none
  | .object members => .object (ofMembers members) none

/-- The documents of a list of values. -/
def ofItems : List Json → List Document
  | [] => []
  | item :: items => ofJson item :: ofItems items

/-- The documents of the members of an object. -/
def ofMembers : List (String × Json) → List (Except Fault String × Document)
  | [] => []
  | (key, value) :: members => (.ok key, ofJson value) :: ofMembers members

end

end Document

end Stencil.Json
