/-
Reading TOML.

A file is a sequence of lines: key–value pairs, headers that choose the table the following
pairs belong to, comments and blank lines.  Reading stops at the first fault and reports the
line it is on.
-/
import Stencil.Toml.Scalar
import Stencil.Json.StringText

namespace Stencil.Toml

/-- A fault of a TOML text: how much of the text was left, and what is wrong there. -/
structure Fault where
  left : Nat
  reason : String

/-- What was read of a text, and the text behind it. -/
abbrev Scanned (α : Type) := α × List Char

/-- A fault in front of a text. -/
def faultAt {α : Type} (rest : List Char) (reason : String) : Except Fault α :=
  .error ⟨rest.length, reason⟩

/-- Passes over spaces and tabs. -/
def skipSpaces (cs : List Char) : List Char := cs.dropWhile fun c => c = ' ' || c = '\t'

/-- Controls other than the tab, which no comment and no string may hold. -/
def isControl (c : Char) : Bool := (c.toNat < 0x20 && c ≠ '\t') || c.toNat = 0x7F

/-- The text behind a line end, if one stands here. -/
def lineEnd? : List Char → Option (List Char)
  | '\n' :: rest => some rest
  | '\r' :: '\n' :: rest => some rest
  | _ => none

/-- Passes over a comment, up to the end of its line. -/
def skipComment : List Char → Except Fault (List Char)
  | [] => .ok []
  | '\n' :: rest => .ok ('\n' :: rest)
  | '\r' :: '\n' :: rest => .ok ('\r' :: '\n' :: rest)
  | c :: rest =>
    if isControl c then
      faultAt (c :: rest) "invalid comment character, expected printable characters"
    else skipComment rest

/-- Passes over white space, line ends and comments; `fuel` bounds the number of steps. -/
def skipBlank : (fuel : Nat) → List Char → Except Fault (List Char)
  | 0, cs => .ok cs
  | fuel + 1, cs =>
    match skipSpaces cs with
    | '#' :: rest => do
      let rest ← skipComment rest
      skipBlank fuel rest
    | rest =>
      match lineEnd? rest with
      | some rest => skipBlank fuel rest
      | none => .ok rest

/-- Passes over the end of a line: spaces, perhaps a comment, and the line end. -/
def endLine (cs : List Char) : Except Fault (List Char) :=
  match skipSpaces cs with
  | [] => .ok []
  | '#' :: rest => skipComment rest
  | rest =>
    match lineEnd? rest with
    | some _ => .ok rest
    | none => faultAt rest "unexpected key or value, expected newline, `#`"

/-- The characters of bare keys. -/
def isBareKey (c : Char) : Bool := c.isAlphanum || c = '_' || c = '-'

/-- The characters that end a bare key. -/
def endsBareKey (c : Char) : Bool :=
  ['.', '=', ',', '[', ']', '{', '}', ' ', '\t', '#', '\r', '\n'].contains c

/-- Reads a bare key. -/
def scanBareKey (cs : List Char) : Except Fault (Scanned String) :=
  let bare := cs.takeWhile (!endsBareKey ·)
  if bare.isEmpty then
    faultAt cs "unquoted keys cannot be empty, expected letters, numbers, `-`, `_`"
  else if bare.all isBareKey then .ok (String.ofList bare, cs.drop bare.length)
  else faultAt cs "invalid unquoted key, expected letters, numbers, `-`, `_`"

/-- The number of hexadecimal digits that an escape takes. -/
def escapeLength? : Char → Option Nat
  | 'x' => some 2
  | 'u' => some 4
  | 'U' => some 8
  | _ => none

/-- The character of an escape that is a backslash and one letter. -/
def shortEscape? : Char → Option Char
  | 'b' => some '\x08'
  | 't' => some '\t'
  | 'n' => some '\n'
  | 'f' => some '\x0c'
  | 'r' => some '\r'
  | 'e' => some '\x1b'
  | '"' => some '"'
  | '\\' => some '\\'
  | _ => none

/-- The character with the code point that hexadecimal digits stand for. -/
def codePoint? (digits : List Char) : Option Char := do
  let n ← digits.foldlM (fun n c => (Json.hexValue? c).map (16 * n + ·)) 0
  guard (n < 0xD800 ∨ (0xDFFF < n ∧ n < 0x110000))
  return Char.ofNat n

/-- Reads an escape behind its backslash. -/
def scanEscape (cs : List Char) : Except Fault (Scanned Char) :=
  match cs with
  | [] => faultAt cs "missing escaped value, expected `b`, `f`, `n`, `r`, `\\`, `\"`, `u`, `U`"
  | c :: rest =>
    match escapeLength? c with
    | some n =>
      match codePoint? (rest.take n) with
      | some x =>
        if (rest.take n).length = n then .ok (x, rest.drop n)
        else faultAt rest "too few unicode value digits"
      | none => faultAt rest "invalid value"
    | none =>
      match shortEscape? c with
      | some x => .ok (x, rest)
      | none =>
        faultAt cs "missing escaped value, expected `b`, `f`, `n`, `r`, `\\`, `\"`, `u`, `U`"

/-- Reads a basic string behind its quote; `read` is what stands in front, last one first. -/
def scanBasic : (fuel : Nat) → (read : List Char) → List Char → Except Fault (Scanned String)
  | 0, _, cs => faultAt cs "invalid basic string, expected `\"`"
  | fuel + 1, read, cs =>
    match cs with
    | '"' :: rest => .ok (String.ofList read.reverse, rest)
    | '\\' :: rest => do
      let (c, rest) ← scanEscape rest
      scanBasic fuel (c :: read) rest
    | c :: rest =>
      if isControl c then faultAt cs "invalid basic string, expected `\"`"
      else scanBasic fuel (c :: read) rest
    | [] => faultAt cs "invalid basic string, expected `\"`"

/-- Reads a literal string behind its quote. -/
def scanLiteral (cs : List Char) : Except Fault (Scanned String) :=
  let body := cs.takeWhile fun c => c ≠ '\'' && !isControl c
  match cs.drop body.length with
  | '\'' :: rest => .ok (String.ofList body, rest)
  | rest => faultAt rest "invalid literal string, expected `'`"

/-- The number of quotes at the start of a text, at most five. -/
def quoteCount (quote : Char) (cs : List Char) : Nat :=
  ((cs.take 5).takeWhile (· = quote)).length

/-- Passes over white space and line ends. -/
def skipEmptyLines : List Char → List Char
  | ' ' :: rest => skipEmptyLines rest
  | '\t' :: rest => skipEmptyLines rest
  | '\n' :: rest => skipEmptyLines rest
  | '\r' :: '\n' :: rest => skipEmptyLines rest
  | rest => rest

/-- Passes over the white space and line ends behind a backslash that ends a line. -/
def skipContinuation (cs : List Char) : Option (List Char) :=
  (lineEnd? (skipSpaces cs)).map skipEmptyLines

/-- Reads a string between triple quotes behind the first three; `escapes` tells whether a
backslash means something. -/
def scanLong (quote : Char) (escapes : Bool) : (fuel : Nat) → (read : List Char) →
    List Char → Except Fault (Scanned String)
  | 0, _, cs => faultAt cs "invalid multi-line string"
  | fuel + 1, read, cs =>
    match cs with
    | [] => faultAt cs "invalid multi-line string"
    | c :: rest =>
      if c = quote then
        let n := quoteCount quote cs
        if n < 3 then scanLong quote escapes fuel (c :: read) rest
        else
          .ok (String.ofList (read.reverse ++ List.replicate (n - 3) quote), cs.drop n)
      else if c = '\\' ∧ escapes then
        match skipContinuation rest with
        | some rest => scanLong quote escapes fuel read rest
        | none => do
          let (c, rest) ← scanEscape rest
          scanLong quote escapes fuel (c :: read) rest
      else
        match lineEnd? cs with
        | some behind =>
          scanLong quote escapes fuel ((cs.take (cs.length - behind.length)).reverse ++ read) behind
        | none =>
          if isControl c then faultAt cs "invalid multi-line string"
          else scanLong quote escapes fuel (c :: read) rest

/-- Passes over a line end right behind the opening of a string between triple quotes. -/
def skipFirstLineEnd (cs : List Char) : List Char := (lineEnd? cs).getD cs

/-- Reads a string of any kind, if one starts here. -/
def scanString? (cs : List Char) : Option (Except Fault (Scanned String)) :=
  match cs with
  | '"' :: '"' :: '"' :: rest =>
    some (scanLong '"' true (cs.length + 1) [] (skipFirstLineEnd rest))
  | '"' :: rest => some (scanBasic (cs.length + 1) [] rest)
  | '\'' :: '\'' :: '\'' :: rest =>
    some (scanLong '\'' false (cs.length + 1) [] (skipFirstLineEnd rest))
  | '\'' :: rest => some (scanLiteral rest)
  | _ => none

/-- Reads one part of a key. -/
def scanKeyPart (cs : List Char) : Except Fault (Scanned String) :=
  match cs with
  | '"' :: rest => scanBasic (cs.length + 1) [] rest
  | '\'' :: rest => scanLiteral rest
  | _ => scanBareKey cs

/-- The number of brackets that may be open at once, and of the parts that may stand in front of
the last part of a key. -/
def nestingLimit : Nat := 80

/-- Reads a key, whose parts have dots between them; `room` bounds their number. -/
def scanKeyParts : (room : Nat) → List Char → Except Fault (Scanned (List String))
  | 0, cs => faultAt cs "recursion limit"
  | room + 1, cs => do
    let (part, rest) ← scanKeyPart (skipSpaces cs)
    match skipSpaces rest with
    | '.' :: more => do
      let (parts, rest) ← scanKeyParts room more
      return (part :: parts, rest)
    | rest => return ([part], rest)

/-- Reads a key. -/
def scanKey (cs : List Char) : Except Fault (Scanned (List String)) := scanKeyParts nestingLimit cs

/-- The characters that end a scalar that is not a string. -/
def endsScalar (c : Char) : Bool := c = ',' || c = ']' || c = '}' || c = '#' || c = '\n' || c = '\r'

/-- Reads a scalar that is not a string.  A space inside is part of it only between a date and
a time. -/
def scanScalar (cs : List Char) : Except Fault (Scanned Toml) :=
  let run (cs : List Char) := cs.takeWhile fun c => !endsScalar c && c ≠ ' ' && c ≠ '\t'
  let first := run cs
  let token : List Char :=
    match cs.drop first.length, date? first with
    | ' ' :: d :: more, some (_, []) =>
      if d.isDigit then first ++ ' ' :: run (d :: more) else first
    | _, _ => first
  match scalar? token with
  | some value => .ok (value, cs.drop token.length)
  | none =>
    if token.isEmpty then faultAt cs "string values must be quoted, expected literal string"
    else if (token.head?.map fun c => c.isAlpha).getD false then
      faultAt cs "string values must be quoted, expected literal string"
    else faultAt cs "invalid number"

/-- What is wrong with too many open brackets. -/
def tooDeep : String := "cannot recurse further; max recursion depth met"

/-- The wording of a clash. -/
def Clash.message : Clash → String
  | duplicateKey => "duplicate key"

/-- Reports a clash as a fault in front of a text. -/
def orFault {α : Type} (rest : List Char) : Except Clash α → Except Fault α
  | .ok value => .ok value
  | .error clash => faultAt rest clash.message

/-- The line on which the rest of a text starts. -/
def lineOf (text : List Char) (left : Nat) : Nat :=
  (text.take (text.length - left)).count '\n' + 1

mutual

/-- Reads a value that stands inside `depth` open brackets; `text` is the whole text, which tells
on what line something stands, and `fuel` bounds the number of steps. -/
def scanValue (text : List Char) (depth : Nat) :
    (fuel : Nat) → List Char → Except Fault (Scanned Toml)
  | 0, cs => faultAt cs "recursion limit"
  | fuel + 1, cs =>
    match scanString? cs with
    | some scan => do
      let (s, rest) ← scan
      return (.string s, rest)
    | none =>
      match cs with
      | '[' :: rest => do
        if nestingLimit ≤ depth then faultAt cs tooDeep
        let (items, rest) ← scanItems text (depth + 1) fuel rest
        return (.array items, rest)
      | '{' :: rest => do
        if nestingLimit ≤ depth then faultAt cs tooDeep
        let (members, rest) ← scanPairs text (depth + 1) fuel [] rest
        return (.table .inline members, rest)
      | _ => scanScalar cs

/-- Reads the items of an array up to its end. -/
def scanItems (text : List Char) (depth : Nat) :
    (fuel : Nat) → List Char → Except Fault (Scanned (List (Nat × Toml)))
  | 0, cs => faultAt cs "recursion limit"
  | fuel + 1, cs => do
    let cs ← skipBlank (cs.length + 1) cs
    match cs with
    | ']' :: rest => return ([], rest)
    | _ => do
      let (item, rest) ← scanValue text depth fuel cs
      let item := (lineOf text cs.length, item)
      let rest ← skipBlank (rest.length + 1) rest
      match rest with
      | ',' :: rest => do
        let (items, rest) ← scanItems text depth fuel rest
        return (item :: items, rest)
      | ']' :: rest => return ([item], rest)
      | rest => faultAt rest "unclosed array, expected `]`"

/-- Reads the pairs of an inline table up to its end.  Line ends and comments may stand anywhere
between them and around the equals signs. -/
def scanPairs (text : List Char) (depth : Nat) :
    (fuel : Nat) → Members → List Char → Except Fault (Scanned Members)
  | 0, _, cs => faultAt cs "recursion limit"
  | fuel + 1, members, cs => do
    let cs ← skipBlank (cs.length + 1) cs
    match cs with
    | '}' :: rest => return (members, rest)
    | _ => do
      let (key, rest) ← scanKey cs
      match ← skipBlank (rest.length + 1) rest with
      | '=' :: rest => do
        let start ← skipBlank (rest.length + 1) rest
        let (value, rest) ← scanValue text depth fuel start
        let members ← orFault cs
          (members.addValue (lineOf text cs.length) (lineOf text start.length) value key)
        let rest ← skipBlank (rest.length + 1) rest
        match rest with
        | ',' :: rest => scanPairs text depth fuel members rest
        | '}' :: rest => return (members, rest)
        | rest => faultAt rest "unclosed inline table, expected `\x7d`"
      | rest => faultAt rest "key with no value, expected `=`"

end

/-- What has been read of a file: its tables, and the path of the current one. -/
structure Progress where
  root : Members := []
  path : List String := []

/-- Reads a header behind its opening bracket; `double` tells whether there were two. -/
def scanHeader (text : List Char) (double : Bool) (progress : Progress) (cs : List Char) :
    Except Fault (Progress × List Char) := do
  let (key, rest) ← scanKey cs
  let line := lineOf text cs.length
  let close : Except Fault (List Char) :=
    match double, skipSpaces rest with
    | false, ']' :: rest => .ok rest
    | true, ']' :: ']' :: rest => .ok rest
    | _, rest => faultAt rest "unclosed table, expected `]`"
  let rest ← close
  let rest ← endLine rest
  let parent := key.dropLast
  let last := key.getLast?.getD ""
  let change := if double then Members.appendTable line last else Members.addTable line last
  let root ← orFault cs (progress.root.descend line change parent)
  return (⟨root, key⟩, rest)

/-- Reads a key–value pair into the current table. -/
def scanPair (text : List Char) (progress : Progress) (cs : List Char) :
    Except Fault (Progress × List Char) := do
  let (key, rest) ← scanKey cs
  match skipSpaces rest with
  | '=' :: rest => do
    let start := skipSpaces rest
    let (value, rest) ← scanValue text 0 (3 * text.length + 3) start
    let rest ← endLine rest
    let line := lineOf text start.length
    let root ← orFault cs
      (progress.root.descend line (Members.addValue line line value key) progress.path)
    return ({ progress with root := root }, rest)
  | rest => faultAt rest "key with no value, expected `=`"

/-- Reads the lines of a file. -/
def scanLines (text : List Char) : (fuel : Nat) → Progress → List Char → Except Fault Members
  | 0, progress, _ => .ok progress.root
  | fuel + 1, progress, cs => do
    let cs ← skipBlank (cs.length + 1) cs
    match cs with
    | [] => return progress.root
    | '[' :: '[' :: rest => do
      let (progress, rest) ← scanHeader text true progress rest
      scanLines text fuel progress rest
    | '[' :: rest => do
      let (progress, rest) ← scanHeader text false progress rest
      scanLines text fuel progress rest
    | _ => do
      let (progress, rest) ← scanPair text progress cs
      scanLines text fuel progress rest

/-- What is wrong with a text, and the line it is on. -/
structure SyntaxError where
  line : Nat
  reason : String

/-- Reads a file; a byte order mark in front of it does not count. -/
def read (text : String) : Except SyntaxError Members :=
  let chars := text.toList
  let body := if chars.head? = some '\uFEFF' then chars.drop 1 else chars
  match scanLines body (body.length + 1) {} body with
  | .ok members => .ok members
  | .error fault => .error ⟨lineOf body fault.left, fault.reason⟩

end Stencil.Toml
