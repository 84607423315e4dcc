/-
Reading what a person typed.

The words are read from left to right.  An option whose value stands in a word of its own is
held back until the next option or the end, and only then checked, so a mistake further on can
be met before it.  Two dashes end the options.
-/
import Stencil.Command
import Stencil.Command.Entry

namespace Stencil

namespace Command

/-- Why there is no command to carry out: help was asked for, or the words are not in order. -/
inductive Stop where
  | help
  | version
  /-- Nothing was typed. -/
  | nothingGiven
  | noCommand
  | unknownCommand
  | unknownArgument
  /-- Arguments exclude one another, or one of them is repeated. -/
  | conflict
  | badValue
  /-- An argument that wants no value has one. -/
  | unwantedValue
  | noName
deriving DecidableEq, Repr

/-- The status for the system: a person who asked for help or for the version got it. -/
def Stop.status : Stop → Nat
  | .help | .version => 0
  | _ => 2

/-- An argument that was named and whose value is not checked yet. -/
structure Held where
  entry : Entry
  value : Option String := none

/-- What was read in one place. -/
structure Reading where
  flags : List Label := []
  values : List (Label × String) := []
  /-- The arguments without a name. -/
  words : List String := []
  held : Option Held := none
  /-- Whether the options have ended. -/
  ended : Bool := false

namespace Reading

/-- Whether an argument was given. -/
def gives (r : Reading) (label : Label) : Bool :=
  r.flags.contains label || r.values.any (·.1 = label)

/-- The values of an argument, in the order in which they were given. -/
def valuesOf (r : Reading) (label : Label) : List String :=
  (r.values.filter (·.1 = label)).map Prod.snd

/-- The value of an argument that is given once at most. -/
def value? (r : Reading) (label : Label) : Option String := (r.valuesOf label).head?

/-- Whether nothing at all was read. -/
def isEmpty (r : Reading) : Bool := r.flags.isEmpty && r.values.isEmpty && r.words.isEmpty

/-- Whether the next word is a value, whatever it looks like otherwise. -/
def awaits (r : Reading) : Bool :=
  match r.held with
  | some ⟨_, none⟩ => !r.ended
  | _ => false

/-- Checks and keeps a value. -/
def store (e : Entry) (value : String) (r : Reading) : Except Stop Reading :=
  if !e.repeatable && r.gives e.label then .error .conflict
  else if e.want = .path && value.isEmpty then .error .badValue
  else .ok { r with values := r.values ++ [(e.label, value)] }

/-- Checks and keeps what is held back. -/
def settle (r : Reading) : Except Stop Reading :=
  match r.held with
  | none => .ok r
  | some ⟨_, none⟩ => .error .badValue
  | some ⟨e, some value⟩ => store e value { r with held := none }

/-- Reads an argument that wants no value. -/
def raise (e : Entry) (r : Reading) : Except Stop Reading := do
  let r ← r.settle
  match e.label with
  | .help => throw .help
  | .version => throw .version
  | label =>
    if r.gives label then throw .conflict
    return { r with flags := r.flags ++ [label] }

/-- Reads an argument that wants a value, which may be attached to its name. -/
def takeValue (e : Entry) (attached : Option String) (r : Reading) : Except Stop Reading := do
  let r ← r.settle
  match attached with
  | some value => r.store e value
  | none => return { r with held := some ⟨e, none⟩ }

/-- Reads a long name, without its dashes, and what is attached to it. -/
def long (p : Place) (text : List Char) (r : Reading) : Except Stop Reading :=
  let (name, attached) :=
    match Text.splitOnce? '=' text with
    | some (name, value) => (name, some (String.ofList value))
    | none => (text, none)
  match p.long? (String.ofList name) with
  | none => .error .unknownArgument
  | some e =>
    if e.want ≠ .nothing then r.takeValue e attached
    else if attached.isSome then .error .unwantedValue
    else r.raise e

/-- Reads short names that stand together; what follows one that wants a value is that value. -/
def short (p : Place) : List Char → Reading → Except Stop Reading
  | [], r => .ok r
  | c :: rest, r =>
    match p.short? c with
    | none => .error .unknownArgument
    | some e =>
      if e.want = .nothing then do
        let r ← r.raise e
        short p rest r
      else
        let attached :=
          match rest with
          | [] => none
          | '=' :: value => some value
          | value => some value
        r.takeValue e (attached.map String.ofList)

/-- What is said about a word for which there is no room. -/
def superfluous (p : Place) (word : String) (r : Reading) : Stop :=
  if p ≠ .front then .unknownArgument
  else if r.ended && Place.isCommandName word then .unknownArgument
  else .unknownCommand

/-- Reads a word without a name. -/
def plain (p : Place) (word : String) (r : Reading) : Except Stop Reading :=
  let room := match p.capacity with
    | some n => decide (r.words.length < n)
    | none => true
  if room then do
    let r ← r.settle
    return { r with words := r.words ++ [word] }
  else .error (r.superfluous p word)

/-- Reads one word. -/
def word (p : Place) (text : String) (r : Reading) : Except Stop Reading :=
  if r.ended then r.plain p text
  else
    match text.toList with
    | ['-', '-'] => .ok { r with ended := true }
    | '-' :: '-' :: name => r.long p name
    | '-' :: c :: names => r.short p (c :: names)
    | _ =>
      match r.held with
      | some ⟨e, none⟩ => .ok { r with held := some ⟨e, some text⟩ }
      | _ => r.plain p text

/-- Reads all words of a place. -/
def ofWords (p : Place) (texts : List String) : Except Stop Reading :=
  texts.foldlM (fun r text => r.word p text) {}

/-- Checks what has to be checked at the end of a place. -/
def finish (p : Place) (r : Reading) : Except Stop Unit :=
  if p.conflicts.any fun pair => r.gives pair.1 && r.gives pair.2 then .error .conflict
  else .ok ()

end Reading

/-- Reads the words in front of the name of a command.  The result has that name with the words
behind it, if there is one. -/
def readFront (r : Reading) : List String → Except Stop (Reading × Option (String × List String))
  | [] => .ok (r, none)
  | text :: rest =>
    if !r.ended && !r.awaits && Place.isCommandName text then .ok (r, some (text, rest))
    else
      match r.word .front text with
      | .ok r => readFront r rest
      | .error stop => .error stop

/-- What a request for help that names commands gets. -/
def helpOn : List String → Stop
  | [] => .help
  | [word] => if Place.isCommandName word then .help else .unknownCommand
  | _ => .unknownCommand

/-- The render that the words behind its name ask for. -/
def renderOf (r : Reading) : Except Stop Command :=
  match r.words.head? with
  | none => .error .noName
  | some name =>
    let origin :=
      match r.value? .bundle, r.value? .url with
      | some directory, _ => .bundle directory
      | none, some base => .web base
      | none, none => .directory ((r.value? .root).getD ".")
    .ok (.render
      { name := name
        origin := origin
        context := r.value? .context
        partials := r.valuesOf .partials
        indent := (r.value? .indent).getD "" })

/-- The build that the words behind its name ask for. -/
def buildOf (r : Reading) : Except Stop Command :=
  if r.words.isEmpty then .error .noName
  else
    .ok (.build
      { names := r.words
        root := (r.value? .root).getD "."
        out := (r.value? .out).getD "dist" })

/-- The command that the words in a place ask for. -/
def ofReading (p : Place) (r : Reading) : Except Stop Command := do
  r.finish p
  match p with
  | .build => buildOf r
  | _ => renderOf r

end Command

namespace Invocation

open Command

/-- The words behind the name of a command, and the command that they ask for. -/
def behind (name : String) (texts : List String) : Except Stop (Reading × Command) :=
  match Place.ofCommand? name with
  | none => .error (helpOn texts)
  | some place => do
    let r ← (← Reading.ofWords place texts).settle
    return (r, ← Command.ofReading place r)

/-- Reads the words that a person typed.  What stands behind the name of the command is read to
the end before what stands in front of it is checked. -/
def ofArguments (texts : List String) : Except Stop Invocation := do
  let (front, found) ← readFront {} texts
  match found with
  | none =>
    let front ← front.settle
    throw (if front.isEmpty then .nothingGiven else .noCommand)
  | some (name, texts) =>
    let (r, command) ← behind name texts
    let front ← front.settle
    front.finish .front
    return { config := r.value? .config <|> front.value? .config, command := command }

end Invocation

end Stencil
