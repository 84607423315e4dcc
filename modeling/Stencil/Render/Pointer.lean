/-
Places inside a value.

A pointer is a row of steps, each in front of a dot or an opening bracket.  A step names a
member of an object or counts the items of an array; quotes around a step are dropped, and no
dot or bracket inside them ends it.  Characters are passed one by one, but a step is cut out by
positions in bytes: behind a character of several bytes the cut comes too early.
-/
import Stencil.Decimal.Reading
import Stencil.Json.Value
import Stencil.Text.Search

namespace Stencil.Render

/-- What has been read of a pointer: whether a quote of either kind is open, and whether the
next character is escaped. -/
structure PointerState where
  single : Bool := false
  double : Bool := false
  escaped : Bool := false

/-- What a character of a pointer does to the step in progress. -/
inductive PointerMark where
  /-- It belongs to the step. -/
  | none
  /-- It ends the step; in front of a step it is passed over. -/
  | divider
  /-- It ends the step, even an empty one. -/
  | opening
  /-- It shifts the start of the step by one position. -/
  | closing

/-- Reads one character of a pointer.  An escaped character does nothing, and a backslash
behind a backslash still escapes what follows. -/
def PointerState.read (s : PointerState) (c : Char) : PointerMark × PointerState :=
  let quoted := s.single || s.double
  if c = '\\' then (.none, { s with escaped := true })
  else if s.escaped then (.none, { s with escaped := false })
  else if c = '"' then (.divider, { s with double := !s.double })
  else if c = '\'' then (.divider, { s with single := !s.single })
  else if quoted then (.none, s)
  else if c = '.' then (.divider, s)
  else if c = '[' then (.opening, s)
  else if c = ']' then (.closing, s)
  else (.none, s)

/-- The characters of a text that start at the byte position `start` or behind it, and in front
of `stop` if there is one. -/
def cut (start : Nat) (stop : Option Nat) (text : List Char) : List Char :=
  go 0 text
where
  /-- The same for the rest of the text, which starts at `position`. -/
  go (position : Nat) : List Char → List Char
    | [] => []
    | c :: cs =>
      let rest := go (position + c.utf8Size) cs
      if start ≤ position ∧ stop.all (position < ·) then c :: rest else rest

/-- The next step of a pointer, and what is left behind it.  `text` is the pointer from the
last cut on, `start` the position at which the step starts in it, and `passed` the number of
characters passed so far. -/
def nextStep (s : PointerState) (text : List Char) (start passed : Nat) :
    List Char → Option (List Char × PointerState × List Char)
  | [] =>
    let step := cut start none text
    if step.isEmpty then none else some (step, s, [])
  | c :: cs =>
    let (mark, s) := s.read c
    let ended :=
      match mark with
      | .opening => true
      | .divider => passed ≠ start
      | _ => false
    if ended then
      let step := cut start (some passed) text
      let rest := cut (passed + 1) none text
      if step.isEmpty then nextStep s rest start (passed + 1) cs else some (step, s, rest)
    else
      match mark with
      | .none => nextStep s text start (passed + 1) cs
      | _ => nextStep s text (start + 1) (passed + 1) cs

/-- The steps of the rest of a pointer; `fuel` bounds their number. -/
def stepsFrom : (fuel : Nat) → PointerState → List Char → List (List Char)
  | 0, _, _ => []
  | fuel + 1, s, text =>
    match nextStep s text 0 0 text with
    | some (step, s, rest) => step :: stepsFrom fuel s rest
    | none => []

/-- The name that a step stands for: `~1` is a slash and `~0` a tilde. -/
def stepName (step : List Char) : String :=
  String.ofList (Text.replace ['~', '0'] ['~'] (Text.replace ['~', '1'] ['/'] step))

/-- The steps of a pointer; every one of them takes up a character. -/
def steps (pointer : String) : List String :=
  (stepsFrom pointer.length {} pointer.toList).map stepName

/-- The index that a step stands for; it is written without a sign and without leading
zeros. -/
def stepIndex? (step : String) : Option Nat :=
  match step.toList with
  | [] => none
  | ['0'] => some 0
  | '0' :: _ => none
  | digits => if digits.all Char.isDigit then some (Decimal.digitsValue digits) else none

/-- One step into a value. -/
def stepInto? (value : Json) (step : String) : Option Json :=
  match value with
  | .object members => Dict.get? step members
  | .array items => do items[← stepIndex? step]?
  | _ => none

/-- The place in a value that a pointer leads to. -/
def place? (value : Json) (pointer : String) : Option Json :=
  (steps pointer).foldlM stepInto? value

/-- The part of a path before its first dot, and the pointer behind it. -/
def splitPath (path : String) : String × Option String :=
  match Text.splitOnce? '.' path.toList with
  | some (root, rest) => (String.ofList root, some (String.ofList rest))
  | none => (path, none)

/-- The value of a path, where the part before its first dot names an entry of a
dictionary. -/
def pathIn? (values : Dict Json) (path : String) : Option Json :=
  match splitPath path with
  | (root, some rest) => do place? (← Dict.get? root values) rest
  | (_, none) => Dict.get? path values

end Stencil.Render
