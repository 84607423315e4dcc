/-
Configuration files.

A configuration file is TOML.  Its values are checked in the order of their keys, and the first
one that does not fit is reported with the line it starts on.  Values that no field asks for are
checked too: a number in them must be one that can be read at all.
-/
import Stencil.Config.Decoding
import Stencil.Report
import Stencil.Toml.Reader

namespace Stencil

namespace Toml

/-- The key under which a date is kept in the options. -/
def datetimeKey : String := "$__toml_private_datetime"

mutual

/-- The JSON form of a value.  A number that is not finite has none and becomes null. -/
def toJson : Toml → Json
  | .string s => .string s
  | .int n => .int n
  | .float x => if x.isFinite then .number (.float x) else .null
  | .tooLarge => .null
  | .bool b => .bool b
  | .datetime s => .object [(datetimeKey, .string s)]
  | .array items => .array (jsonItems items)
  | .tables items => .array (jsonItems items)
  | .table _ members => .object (Dict.ofPairs (jsonMembers members))

/-- The JSON forms of the items of an array. -/
def jsonItems : List (Nat × Toml) → List Json
  | [] => []
  | (_, item) :: items => item.toJson :: jsonItems items

/-- The JSON forms of the members of a table. -/
def jsonMembers : Members → List (String × Json)
  | [] => []
  | (key, _, _, value) :: members => (key, value.toJson) :: jsonMembers members

end

end Toml

namespace Config

/-- Why a value does not fit a configuration. -/
inductive Misfit where
  /-- It is not of the type that is expected. -/
  | wrongType (found : Toml) (expected : String)
  /-- It is a number that cannot be held. -/
  | overflow (number : String)
  | unknownPolicy (name : String)
  /-- It is neither the name of a policy nor a table with one. -/
  | noPolicy
  | policyCount (found : String)
  /-- Something stands under the name of a policy. -/
  | payload (found : Toml)

/-- How many bits an integer takes beyond a 64-bit word, as diagnostics say it. -/
def Misfit.width (n : Int) : String :=
  if Number.leastInt ≤ n ∧ n < Number.natLimit then ""
  else if n < 170141183460469231731687303715884105728 then " as i128"
  else " as u128"

/-- Whether an integer fits 128 bits, with a sign or without. -/
def Misfit.isBounded (n : Int) : Bool :=
  decide (-170141183460469231731687303715884105728 ≤ n ∧
    n < 340282366920938463463374607431768211456)

/-- Numbers in a diagnostic about a file: never an exponent, but always a fraction. -/
def Misfit.floatLayout : Decimal.Layout := ⟨none, true, false, .up⟩

/-- The description of what was found. -/
def Misfit.describe : Toml → String
  | .string s => "string " ++ Text.quote s
  | .int n => "integer `" ++ String.ofList (Json.intText n) ++ "`" ++ width n
  | .float x => "floating point `" ++ String.ofList (floatLayout.write x) ++ "`"
  | .bool b => "boolean `" ++ String.ofList (Json.boolText b) ++ "`"
  | .array _ | .tables _ => "sequence"
  | .tooLarge | .datetime _ | .table _ _ => "map"

/-- The wording of a misfit. -/
def Misfit.message : Misfit → String
  | wrongType found expected => "invalid type: " ++ describe found ++ ", expected " ++ expected
  | overflow number => number ++ " number overflowed"
  | unknownPolicy name =>
    "unknown variant `" ++ name ++ "`, " ++ Json.alternatives (LocalPartials.names.map Prod.fst)
  | noPolicy => "wanted string or table"
  | policyCount found => "wanted exactly 1 element, " ++ found
  | payload (.array _) | payload (.tables _) => "expected empty array"
  | payload (.table _ _) => "expected empty table"
  | payload found => "expected table, found " ++ found.typeName

/-- The value of a checked part of a file, or the line and the reason why it does not fit. -/
abbrev Fitted (α : Type) := Except (Nat × Misfit) α

/-- Reports a value that is not of the expected type. -/
def reject {α : Type} (expected : String) (line : Nat) (found : Toml) : Fitted α :=
  .error (line,
    match found with
    | .tooLarge => .overflow "floating-point"
    | .int n =>
      if Misfit.isBounded n then .wrongType found expected else .overflow "integer"
    | _ => .wrongType found expected)

/-- A string. -/
def fitText (line : Nat) : Toml → Fitted String
  | .string s => .ok s
  | other => reject "a string" line other

/-- A Boolean. -/
def fitSwitch (line : Nat) : Toml → Fitted Bool
  | .bool b => .ok b
  | other => reject "a boolean" line other

/-- Whether an integer is accepted where any value will do: what is kept has to fit a word, and
what is passed over 128 bits. -/
def acceptsInt (kept : Bool) (n : Int) : Bool :=
  if kept then decide (Number.leastInt ≤ n ∧ n < Number.natLimit) else Misfit.isBounded n

mutual

/-- Checks a value of any type, which is kept or passed over. -/
def fitAny (kept : Bool) (line : Nat) : Toml → Fitted Unit
  | .int n => if acceptsInt kept n then .ok () else reject "any value" line (.int n)
  | .tooLarge => reject "any value" line .tooLarge
  | .array items => fitItems kept items
  | .tables items => fitItems kept items
  | .table _ members => fitMembers kept members
  | _ => .ok ()

/-- Checks the items of an array. -/
def fitItems (kept : Bool) : List (Nat × Toml) → Fitted Unit
  | [] => .ok ()
  | (line, item) :: items => do
    fitAny kept line item
    fitItems kept items

/-- Checks the members of a table. -/
def fitMembers (kept : Bool) : Toml.Members → Fitted Unit
  | [] => .ok ()
  | (_, _, line, value) :: members => do
    fitAny kept line value
    fitMembers kept members

end

/-- A policy of a given name. -/
def fitPolicyName (line : Nat) (name : String) : Fitted LocalPartials :=
  match LocalPartials.names.lookup name with
  | some policy => .ok policy
  | none => .error (line, .unknownPolicy name)

/-- Checks that what stands under the name of a policy is empty. -/
def fitPayload (line : Nat) : Toml → Fitted Unit
  | .array [] | .tables [] | .table _ [] => .ok ()
  | found => .error (line, .payload found)

/-- A policy: its name, or a table with nothing but the name as a key. -/
def fitPolicy (line : Nat) : Toml → Fitted LocalPartials
  | .string name => fitPolicyName line name
  | .table _ [(key, keyLine, payloadLine, payload)] => do
    let policy ← fitPolicyName keyLine key
    fitPayload payloadLine payload
    return policy
  | .table _ [] => .error (line, .policyCount "found 0 elements")
  | .table _ _ => .error (line, .policyCount "more than 1 element")
  | _ => .error (line, .noPolicy)

/-- Takes up one option. -/
def fitOption (options : Options) (key : String) (line : Nat) (value : Toml) :
    Fitted Options :=
  if key = "autoescape" then do
    return { options with autoescape := ← fitSwitch line value }
  else do
    fitAny true line value
    return { options with extra := options.extra.insert key value.toJson }

/-- Compilation options are a table; a date counts as a table with a single key. -/
def fitOptions (line : Nat) : Toml → Fitted Options
  | .table _ members =>
    members.foldlM (fun options (key, _, line, value) => fitOption options key line value) {}
  | .datetime s => fitOption {} Toml.datetimeKey line (.string s)
  | other => reject "struct CompilationOptions" line other

/-- Takes up one field; a field that no configuration has is passed over. -/
def fitField (c : Config) (field : String) (line : Nat) (value : Toml) : Fitted Config :=
  match field with
  | "template_extension" => return { c with extension := ← fitText line value }
  | "compilation_options" => return { c with options := ← fitOptions line value }
  | "delimiter" => return { c with delimiter := ← fitText line value }
  | "path_prefix" => return { c with pathPrefix := some (← fitText line value) }
  | "local_partials" => return { c with localPartials := ← fitPolicy line value }
  | "plugin_name" => return { c with plugin := ← fitText line value }
  | _ => do
    fitAny false line value
    return c

/-- The configuration in a sorted table. -/
def ofMembers (members : Toml.Members) : Fitted Config :=
  members.foldlM (fun c (field, _, line, value) => fitField c field line value) {}

/-- Why the text of a file is no configuration. -/
inductive FileFault where
  /-- It is no TOML. -/
  | malformed (fault : Toml.SyntaxError)
  /-- A value in it does not fit.  `regular` tells whether all numbers in it fit a 64-bit
  word. -/
  | misfit (line : Nat) (misfit : Misfit) (regular : Bool)

/-- The wording of a fault. -/
def FileFault.reason : FileFault → String
  | malformed fault => fault.reason
  | misfit _ m _ => m.message

/-- The line of a fault. -/
def FileFault.line : FileFault → Nat
  | malformed fault => fault.line
  | misfit line _ _ => line

/-- The text that shows a fault. -/
def FileFault.message (fault : FileFault) : String :=
  "TOML parse error at line " ++ natText fault.line ++ ": " ++ fault.reason ++ "\n"

/-- Reads the text of a configuration file. -/
def parse (text : String) : Except FileFault Config :=
  match Toml.read text with
  | .error fault => .error (.malformed fault)
  | .ok members =>
    match ofMembers (Dict.ofPairs (Toml.sortedMembers members)) with
    | .ok config => .ok config
    | .error (line, misfit) => .error (.misfit line misfit (Toml.membersAreRegular members))

/-- Reads and checks the text of the configuration file at `path`. -/
def ofFile (path text : String) : Except Failure Config :=
  match parse text with
  | .error fault =>
    .error ⟨.configurationFile fault.message, ["Failed to parse config file: " ++ path]⟩
  | .ok config =>
    match config.check with
    | .error e => .error ⟨.error e, ["Invalid loader configuration in " ++ path]⟩
    | .ok () => .ok config

end Config

end Stencil
