/-
Scopes.

While a template is rendered, names are looked up in a stack of frames, the innermost one
first, and then among the values that the render was given.  A loop and an included template
see everything outside them; a macro sees its arguments and the given values only.  Blocks that
were entered are kept apart, for they stay known to the rest of the render.
-/
import Stencil.Render.Pointer
import Stencil.Render.Printed

namespace Stencil.Render

/-- What the rest of a pass through the body of a loop is to do. -/
inductive Signal where
  | proceed
  | next
  | leave
deriving DecidableEq, Repr

/-- A loop in progress: the names of its key and of its value, the item at hand, and its place
among `count` items. -/
structure Loop where
  keyName : Option String
  valueName : String
  key : String
  value : Json
  index : Nat
  count : Nat
  signal : Signal := .proceed

/-- Why a frame was opened. -/
inductive FrameKind where
  | origin
  | included
  | macroBody (space name : String)
  | loop (state : Loop)

/-- A frame: the template whose text is being rendered, and the values that were set here. -/
structure Frame where
  kind : FrameKind
  template : String
  values : Dict Json := []

/-- The frames, from the innermost one outwards, and the blocks entered, the last one first,
each with its template. -/
structure Scope where
  frames : List Frame
  blocks : List (String × String) := []

namespace Loop

/-- What a loop knows under the name `loop`. -/
def counter? (l : Loop) : String → Option Json
  | "index" => some (.nat (l.index + 1))
  | "index0" => some (.nat l.index)
  | "first" => some (.bool (l.index == 0))
  | "last" => some (.bool (l.index + 1 == l.count))
  | _ => none

/-- The value that a loop has for a path. -/
def find? (l : Loop) (path : String) : Option Json :=
  if l.keyName = some path then some (.string l.key)
  else
    let (root, rest) := splitPath path
    let rest := rest.getD ""
    if root = "loop" then l.counter? rest
    else if root = l.valueName then place? l.value rest
    else none

end Loop

namespace Frame

/-- The loop of a frame. -/
def loop? (f : Frame) : Option Loop :=
  match f.kind with
  | .loop l => some l
  | _ => none

/-- Whether nothing outside a frame is visible from it. -/
def isClosed (f : Frame) : Bool :=
  match f.kind with
  | .origin | .macroBody _ _ => true
  | .included | .loop _ => false

/-- Whether a frame belongs to a macro. -/
def isMacro (f : Frame) : Bool :=
  match f.kind with
  | .macroBody _ _ => true
  | _ => false

/-- The value that a frame has for a path: a value set here, or else one of its loop. -/
def find? (f : Frame) (path : String) : Option Json :=
  pathIn? f.values path <|> do (← f.loop?).find? path

/-- Sets a value. -/
def set (f : Frame) (name : String) (value : Json) : Frame :=
  { f with values := Dict.insert name value f.values }

/-- The same frame with another loop. -/
def withLoop (f : Frame) (l : Loop) : Frame := { f with kind := .loop l }

end Frame

/-- The value that the frames have for a path. -/
def findInFrames? (path : String) : List Frame → Option Json
  | [] => none
  | f :: outer =>
    match f.find? path with
    | some value => some value
    | none => if f.isClosed then none else findInFrames? path outer

/-- Sets a value in the nearest frame that is not a loop. -/
def setOutsideLoops (name : String) (value : Json) : List Frame → List Frame
  | [] => []
  | f :: outer =>
    match f.loop? with
    | some _ => f :: setOutsideLoops name value outer
    | none => f.set name value :: outer

/-- What a frame adds to the values seen from further inside, which it covers. -/
def Frame.expose (f : Frame) (inner : Dict Json) : Dict Json :=
  let seen := Dict.override inner f.values
  match f.loop? with
  | none => seen
  | some l =>
    let seen := Dict.insert l.valueName l.value seen
    match l.keyName with
    | none => seen
    | some key => Dict.insert key (.string l.key) seen

/-- All values visible from a stack of frames on top of the given ones. -/
def visibleFrom (given : Dict Json) (inner : Dict Json) : List Frame → Dict Json
  | [] => Dict.override given inner
  | f :: outer =>
    let seen := f.expose inner
    if f.isMacro then seen else visibleFrom given seen outer

namespace Scope

/-- The scope in which a template starts. -/
def start (template : String) : Scope := { frames := [⟨.origin, template, []⟩] }

/-- The template whose text is being rendered. -/
def template (s : Scope) : String := (s.frames.head?.map Frame.template).getD ""

/-- The value of a path in a scope. -/
def find? (given : Dict Json) (s : Scope) (path : String) : Option Json :=
  findInFrames? path s.frames <|> pathIn? given path

/-- All values visible in a scope. -/
def visible (given : Dict Json) (s : Scope) : Dict Json := visibleFrom given [] s.frames

/-- Opens a frame. -/
def push (s : Scope) (f : Frame) : Scope := { s with frames := f :: s.frames }

/-- Closes the innermost frame. -/
def pop (s : Scope) : Scope := { s with frames := s.frames.tail }

/-- Changes the innermost frame. -/
def modifyTop (f : Frame → Frame) (s : Scope) : Scope :=
  match s.frames with
  | [] => s
  | top :: outer => { s with frames := f top :: outer }

/-- Sets a value in the innermost frame, or in the nearest one that is not a loop. -/
def set (isGlobal : Bool) (name : String) (value : Json) (s : Scope) : Scope :=
  if isGlobal then { s with frames := setOutsideLoops name value s.frames }
  else s.modifyTop (·.set name value)

/-- The loop of the innermost frame. -/
def loop? (s : Scope) : Option Loop := do (← s.frames.head?).loop?

/-- Whether the rest of the body at hand is to be passed over. -/
def skipsRest (s : Scope) : Bool :=
  (s.loop?.map fun l => decide (l.signal ≠ .proceed)).getD false

end Scope

end Stencil.Render
