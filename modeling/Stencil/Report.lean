/-
Failure reports.

A failure is a cause together with what was being attempted, from the innermost attempt to
the outermost.  The report for a person names the cause, says what it means and what to do
about it.
-/
import Stencil.Error

namespace Stencil

/-- What made an attempt fail. -/
inductive Cause where
  /-- One of the errors of this library. -/
  | error (error : Error)
  /-- A file system operation; `missing` tells that a file or directory was not there. -/
  | file (missing : Bool) (reason : String)
  /-- A configuration file that cannot be understood. -/
  | configurationFile (reason : String)
  /-- Anything else. -/
  | plain (reason : String)

/-- The wording of a cause. -/
def Cause.message : Cause → String
  | error e => e.message
  | file _ reason => reason
  | configurationFile reason => reason
  | plain reason => reason

/-- A cause and the attempts that it made fail, the innermost one first. -/
structure Failure where
  cause : Cause
  attempts : List String := []

namespace Failure

/-- A failure seen from one attempt further out. -/
def during (attempt : String) (f : Failure) : Failure :=
  { f with attempts := f.attempts ++ [attempt] }

/-- The attempts from the outermost one inwards, and the cause. -/
def chain (f : Failure) : String :=
  ": ".intercalate (f.attempts.reverse ++ [f.cause.message])

end Failure

/-- What a person is told about a failure. -/
structure Report where
  error : Error
  details : Option String := none
  suggestion : Option String := none

namespace Report

/-- The report about a failure.  For an error of this library the attempts go into the
details; for any other cause they are part of the message. -/
def ofFailure (f : Failure) : Report :=
  match f.cause with
  | .error e =>
    { error := e
      details :=
        if f.attempts.isEmpty then e.details?
        else
          match e.details? with
          | some details => some (f.chain ++ "\n" ++ details)
          | none => some f.chain
      suggestion := e.suggestion? }
  | .file true _ =>
    { error := .other f.chain
      suggestion := some "Check that the file or directory exists and the path is correct" }
  | .configurationFile _ =>
    { error := .other f.chain
      suggestion := some "Check the configuration file for TOML syntax errors"
      details := some ("Options are template_extension, delimiter, path_prefix, " ++
        "local_partials, plugin_name and [compilation_options]") }
  | _ => { error := .other f.chain }

/-- The lines of a report, the error with the given label in front of it and the details and
the suggestion with theirs. -/
def lines (first details suggestion : String) (r : Report) : List String :=
  (first ++ r.error.message) ::
    ((r.details.map (details ++ ·)).toList ++ (r.suggestion.map (suggestion ++ ·)).toList)

/-- A report as one text. -/
def text (r : Report) : String := "\n".intercalate (r.lines "" "Details: " "Suggestion: ")

end Report

end Stencil
