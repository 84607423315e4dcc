/-
Decoding documents into the types of the library.

A decoder asks for a value of a certain shape and reports the first thing in the document that
does not fit: a fault of the text, a value of the wrong kind, a field that is missing or given
twice.  The same decoders serve JSON texts and values that are already in memory; only texts
have a limit on nesting, and a `Setting` tells the two apart.
-/
import Stencil.Decimal.Layout
import Stencil.Json.Document
import Stencil.Json.Writer
import Stencil.Text.Quoted

namespace Stencil.Json

/-- The kind of a value that was found where another was due. -/
inductive Found where
  | null
  | bool (value : Bool)
  | number (value : Number)
  | string (text : String)
  | sequence
  | map

/-- Why a document cannot be decoded. -/
inductive Mismatch where
  | fault (fault : Fault)
  | wrongType (found : Found) (expected : String)
  | wrongValue (found : Found) (expected : String)
  | wrongLength (length : Nat) (expected : String)
  | missingField (field : String)
  | duplicateField (field : String)
  | unknownVariant (variant : String) (expected : List String)

/-- Where documents come from. -/
inductive Setting where
  /-- A JSON text, in which nesting is limited. -/
  | text
  /-- A value in memory. -/
  | value
deriving DecidableEq

/-- The description of what was found. -/
def Found.describe : Found → String
  | null => "null"
  | bool b => "boolean `" ++ String.ofList (boolText b) ++ "`"
  | number (.int n) => "integer `" ++ String.ofList (intText n) ++ "`"
  | number (.float x) => "floating point `" ++ String.ofList (floatLayout.write x) ++ "`"
  | string s => "string " ++ Text.quote s
  | sequence => "sequence"
  | map => "map"

/-- Alternatives as a diagnostic lists them. -/
def alternatives : List String → String
  | [] => "there are no variants"
  | [a] => "expected `" ++ a ++ "`"
  | [a, b] => "expected `" ++ a ++ "` or `" ++ b ++ "`"
  | more => "expected one of " ++ ", ".intercalate (more.map fun a => "`" ++ a ++ "`")

/-- The wording of a mismatch. -/
def Mismatch.message : Mismatch → String
  | fault f => f.message
  | wrongType found expected =>
    "invalid type: " ++ found.describe ++ ", expected " ++ expected
  | wrongValue found expected =>
    "invalid value: " ++ found.describe ++ ", expected " ++ expected
  | wrongLength length expected =>
    "invalid length " ++ String.ofList (Decimal.natDigits length) ++ ", expected " ++ expected
  | missingField field => "missing field `" ++ field ++ "`"
  | duplicateField field => "duplicate field `" ++ field ++ "`"
  | unknownVariant variant expected =>
    "unknown variant `" ++ variant ++ "`, " ++ alternatives expected

/-- The number of brackets a JSON text may open inside one another, less one. -/
def nestingLimit : Nat := 127

/-- Decodes a document that stands inside `depth` open brackets. -/
abbrev Decoder (α : Type) := Setting → (depth : Nat) → Document → Except Mismatch α

/-- The mismatch of a stop for a decoder that wants what stands there. -/
def Break.mismatch (stop : Break) : Mismatch := .fault stop.wanted

/-- Checks that one more bracket may be opened. -/
def enter (setting : Setting) (depth : Nat) : Except Mismatch Unit :=
  if setting = .text ∧ nestingLimit ≤ depth then .error (.fault .tooDeep) else .ok ()

namespace Decoder

/-- Reports a value that is not of the expected kind. -/
def reject {α : Type} (expected : String) : Document → Except Mismatch α
  | .null => .error (.wrongType .null expected)
  | .bool b => .error (.wrongType (.bool b) expected)
  | .number (.ok n) => .error (.wrongType (.number n) expected)
  | .number (.error f) => .error (.fault f)
  | .string (.ok s) => .error (.wrongType (.string s) expected)
  | .string (.error f) => .error (.fault f)
  | .array _ _ => .error (.wrongType .sequence expected)
  | .object _ _ => .error (.wrongType .map expected)
  | .broken stop => .error stop.mismatch

/-- A string. -/
def string : Decoder String := fun _ _ doc =>
  match doc with
  | .string (.ok s) => .ok s
  | other => reject "a string" other

/-- A Boolean. -/
def bool : Decoder Bool := fun _ _ doc =>
  match doc with
  | .bool b => .ok b
  | other => reject "a boolean" other

/-- An unsigned 64-bit integer. -/
def word : Decoder Nat := fun _ _ doc =>
  match doc with
  | .number (.ok (.int n)) =>
    if 0 ≤ n then .ok n.toNat else .error (.wrongValue (.number (.int n)) "usize")
  | other => reject "usize" other

/-- A value that may be null. -/
def optional {α : Type} (decode : Decoder α) : Decoder (Option α) := fun setting depth doc =>
  match doc with
  | .null => .ok none
  | other => (decode setting depth other).map some

/-- The value that belongs to one of a list of names. -/
def named {α : Type} (names : List (String × α)) (name : String) : Except Mismatch α :=
  match names.lookup name with
  | some value => .ok value
  | none => .error (.unknownVariant name (names.map Prod.fst))

/-- Checks that what stands under the name of a variant in a value is null. -/
def nullPayload : Document → Except Mismatch Unit
  | .null => .ok ()
  | other => reject "unit" other

/-- One of a list of names, given as a string, or as an object with the name as its only key
and nothing under it. -/
def variant {α : Type} (names : List (String × α)) : Decoder α := fun _ _ doc =>
  match doc with
  | .string (.ok s) => named names s
  | .object [(.ok key, payload)] _ => do
    let value ← named names key
    nullPayload payload
    return value
  | .object _ _ => .error (.wrongValue .map "map with a single key")
  | other => reject "string or map" other

mutual

/-- Passes over a value, which must still be JSON. -/
def skip : Document → Except Mismatch Unit
  | .broken stop => .error (.fault stop.skipped)
  | .array items stop => do
    skipItems items
    skipStop stop
  | .object members stop => do
    skipMembers members
    skipStop stop
  | _ => .ok ()

/-- Passes over the items of an array. -/
def skipItems : List Document → Except Mismatch Unit
  | [] => .ok ()
  | item :: items => do
    skip item
    skipItems items

/-- Passes over the members of an object. -/
def skipMembers : List (Except Fault String × Document) → Except Mismatch Unit
  | [] => .ok ()
  | (_, value) :: members => do
    skip value
    skipMembers members

/-- Passes over the end of an array or object. -/
def skipStop : Option Break → Except Mismatch Unit
  | none => .ok ()
  | some stop => .error (.fault stop.skipped)

end

/-- The end of an array or object whose parts are all wanted. -/
def finish (stop : Option Break) : Except Mismatch Unit :=
  match stop with
  | none => .ok ()
  | some stop => .error stop.mismatch

mutual

/-- Any value at all.  A double that is not finite has no JSON form and becomes null. -/
def any (setting : Setting) (depth : Nat) : Document → Except Mismatch Json
  | .null => .ok .null
  | .bool b => .ok (.bool b)
  | .number (.ok (.int n)) => .ok (.int n)
  | .number (.ok (.float x)) => .ok (if x.isFinite then .number (.float x) else .null)
  | .number (.error f) => .error (.fault f)
  | .string (.ok s) => .ok (.string s)
  | .string (.error f) => .error (.fault f)
  | .broken stop => .error stop.mismatch
  | .array items stop => do
    enter setting depth
    let values ← anyItems setting (depth + 1) items
    finish stop
    return .array values
  | .object members stop => do
    enter setting depth
    let values ← anyMembers setting (depth + 1) [] members
    finish stop
    return .object values

/-- The items of an array. -/
def anyItems (setting : Setting) (depth : Nat) : List Document → Except Mismatch (List Json)
  | [] => .ok []
  | item :: items => do
    let value ← any setting depth item
    let values ← anyItems setting depth items
    return value :: values

/-- The members of an object on top of those read before; of a repeated key the last value
counts. -/
def anyMembers (setting : Setting) (depth : Nat) (read : Dict Json) :
    List (Except Fault String × Document) → Except Mismatch (Dict Json)
  | [] => .ok read
  | (key, value) :: members =>
    match key with
    | .error f => .error (.fault f)
    | .ok key => do
      let value ← any setting depth value
      anyMembers setting depth (read.insert key value) members

end

/-- A list of values of one shape. -/
def list {α : Type} (decode : Decoder α) : Decoder (List α) := fun setting depth doc =>
  match doc with
  | .array items stop => do
    enter setting depth
    let values ← items.mapM (decode setting (depth + 1))
    finish stop
    return values
  | other => reject "a sequence" other

/-- What a reader of the fields of a record does with one field: `σ` holds the fields read so
far, and a field that the record does not have gives nothing. -/
abbrev FieldReader (σ : Type) :=
  Setting → (depth : Nat) → σ → (field : String) → Document → Option (Except Mismatch σ)

/-- Reads the members of an object as the fields of a record; members that are no field are
passed over. -/
def fields {σ : Type} (read : FieldReader σ) (setting : Setting) (depth : Nat) :
    σ → List (Except Fault String × Document) → Except Mismatch σ
  | s, [] => .ok s
  | s, (key, value) :: members =>
    match key with
    | .error f => .error (.fault f)
    | .ok key =>
      match read setting depth s key value with
      | some result => do
        let s ← result
        fields read setting depth s members
      | none => do
        skip value
        fields read setting depth s members

/-- Stores a field that must not have been read before. -/
def once {α σ : Type} (field : String) (present : Option α) (decode : Decoder α)
    (store : α → σ) (setting : Setting) (depth : Nat) (doc : Document) : Except Mismatch σ :=
  match present with
  | some _ => .error (.duplicateField field)
  | none => (decode setting depth doc).map store

/-- A field that must be there. -/
def require {α : Type} (field : String) : Option α → Except Mismatch α
  | some value => .ok value
  | none => .error (.missingField field)

/-- The end of an array that was read as a record of `read` fields in order: nothing may
follow. -/
def finishRecord (setting : Setting) (length : Nat) (surplus : List Document)
    (stop : Option Break) : Except Mismatch Unit :=
  match surplus, setting with
  | _ :: _, .text => .error (.fault .trailingCharacters)
  | _ :: _, _ => .error (.wrongLength length "fewer elements in array")
  | [], _ =>
    match stop with
    | none => .ok ()
    | some stop =>
      .error (.fault (match stop.wanted with
        | .endInArray => .endInArray
        | .trailingComma => .trailingComma
        | _ => .trailingCharacters))

/-- The item at a position of an array that is read as a record: the value, or nothing if the
array ends before it. -/
def element {α : Type} (decode : Decoder α) (setting : Setting) (depth : Nat)
    (items : List Document) (stop : Option Break) (i : Nat) : Except Mismatch (Option α) :=
  match items[i]? with
  | some item => (decode setting depth item).map some
  | none => (finish stop).map fun _ => none

/-- Runs a decoder on a whole JSON text. -/
def ofText {α : Type} (decode : Decoder α) (text : String) : Except Mismatch α := do
  let (document, trailing) := Document.ofText text.toList
  let value ← decode .text 0 document
  if trailing then .error (.fault .trailingCharacters) else .ok value

/-- Runs a decoder on a value. -/
def ofJson {α : Type} (decode : Decoder α) (value : Json) : Except Mismatch α :=
  decode .value 0 (.ofJson value)

end Decoder

end Stencil.Json
