/-
What a person is told who did not name a command to carry out.
-/
import Stencil.Command.Arguments

namespace Stencil

namespace Command

/-- The name of the program. -/
def programName : String := "hgn"

/-- The version of the program. -/
def programVersion : String := "0.4.0"

/-- How an argument is written. -/
def Entry.text (e : Entry) : String :=
  let short := match e.short with
    | some c => "-" ++ String.singleton c ++ ", "
    | none => ""
  let value := match e.want with
    | .nothing => ""
    | .text => " <TEXT>"
    | .path => " <PATH>"
  "  " ++ short ++ "--" ++ e.long ++ value

/-- How the program is used. -/
def usage : List String :=
  ["Load, render and bundle templates with partials", "",
   "Usage: " ++ programName ++ " [OPTIONS] render [OPTIONS] <NAME>",
   "       " ++ programName ++ " [OPTIONS] build [OPTIONS] <NAMES>...", "",
   "Options:"] ++ Place.front.entries.map Entry.text ++
  ["", "Options of render:"] ++ Place.render.ownEntries.map Entry.text ++
  ["", "Options of build:"] ++ Place.build.ownEntries.map Entry.text

/-- What is wrong with what a person typed. -/
def Stop.complaint : Stop → String
  | .help | .version | .nothingGiven => ""
  | .noCommand => "a command is required"
  | .unknownCommand => "unrecognized command"
  | .unknownArgument => "unexpected argument"
  | .conflict => "arguments cannot be used together or more than once"
  | .badValue => "a value is required for an argument"
  | .unwantedValue => "unexpected value for an argument"
  | .noName => "the name of a template is required"

/-- The lines that a person is shown in place of an outcome. -/
def Stop.lines : Stop → List String
  | .version => [programName ++ " " ++ programVersion]
  | .help | .nothingGiven => usage
  | stop =>
    ["error: " ++ stop.complaint, "",
     "For more information, try '" ++ programName ++ " --help'."]

end Command

end Stencil
