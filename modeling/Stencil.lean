import Stencil.Build.Definition
import Stencil.Build.ModuleText
import Stencil.Build.Session
import Stencil.Build.Sink
import Stencil.Bundle
import Stencil.Bundle.Directory
import Stencil.Cache
import Stencil.Closure
import Stencil.Command
import Stencil.Command.Arguments
import Stencil.Command.Entry
import Stencil.Command.Names
import Stencil.Command.Run
import Stencil.Command.Usage
import Stencil.Config
import Stencil.Config.Decoding
import Stencil.Config.File
import Stencil.Decimal.Fixed
import Stencil.Decimal.Layout
import Stencil.Decimal.Reading
import Stencil.Decimal.Remainder
import Stencil.Decimal.Shortest
import Stencil.Dependencies
import Stencil.Dict
import Stencil.Engine
import Stencil.Engine.Fault
import Stencil.Error
import Stencil.Files.Fault
import Stencil.Files.Glob
import Stencil.Files.Pattern
import Stencil.Files.Tree
import Stencil.Grammar.Basic
import Stencil.Grammar.Match
import Stencil.Json.Decoder
import Stencil.Json.Document
import Stencil.Json.Fault
import Stencil.Json.NumberText
import Stencil.Json.StringText
import Stencil.Json.Value
import Stencil.Json.Writer
import Stencil.Language.Ast
import Stencil.Language.Dump
import Stencil.Language.Grammar
import Stencil.Language.Reading
import Stencil.Language.Rule
import Stencil.Language.Sheet
import Stencil.Language.Trim
import Stencil.Loader
import Stencil.Main
import Stencil.Module
import Stencil.Options
import Stencil.Path
import Stencil.Piece
import Stencil.Proofs.Activity
import Stencil.Proofs.Build.Containment
import Stencil.Proofs.Build.Definition
import Stencil.Proofs.Build.Directory
import Stencil.Proofs.Build.Equivalence
import Stencil.Proofs.Build.Lossless
import Stencil.Proofs.Build.ModuleId
import Stencil.Proofs.Build.ModuleText
import Stencil.Proofs.Build.WriteAll
import Stencil.Proofs.Bundle
import Stencil.Proofs.Bundle.Directory
import Stencil.Proofs.Bundle.Registry
import Stencil.Proofs.Bundle.Suggestions
import Stencil.Proofs.Circle
import Stencil.Proofs.Closure.Alike
import Stencil.Proofs.Closure.Build
import Stencil.Proofs.Closure.Escaping
import Stencil.Proofs.Closure.Keys
import Stencil.Proofs.Closure.Queue
import Stencil.Proofs.Closure.RootKey
import Stencil.Proofs.Closure.Sharing
import Stencil.Proofs.Command.Names
import Stencil.Proofs.Command.Repetition
import Stencil.Proofs.Decimal.Digits
import Stencil.Proofs.Decimal.Rounding
import Stencil.Proofs.Decimal.Shortest
import Stencil.Proofs.Dependencies
import Stencil.Proofs.Dict
import Stencil.Proofs.Engine
import Stencil.Proofs.Files.Bare
import Stencil.Proofs.Files.Base
import Stencil.Proofs.Files.Follow
import Stencil.Proofs.Files.Fresh
import Stencil.Proofs.Files.Glob
import Stencil.Proofs.Files.Pattern
import Stencil.Proofs.Files.Relative
import Stencil.Proofs.Files.Save
import Stencil.Proofs.Files.Search
import Stencil.Proofs.Files.Trail
import Stencil.Proofs.Files.Tree
import Stencil.Proofs.Grammar.Fuel
import Stencil.Proofs.Grammar.Reads
import Stencil.Proofs.Json.Document
import Stencil.Proofs.Json.NumberText
import Stencil.Proofs.Json.StringText
import Stencil.Proofs.Json.Value
import Stencil.Proofs.Language.Fuel
import Stencil.Proofs.Language.Growth
import Stencil.Proofs.Language.Inside
import Stencil.Proofs.Language.Outline
import Stencil.Proofs.Language.Parse
import Stencil.Proofs.Language.Parts
import Stencil.Proofs.Language.Places
import Stencil.Proofs.Language.Renaming
import Stencil.Proofs.Language.Rereading
import Stencil.Proofs.Language.Retelling
import Stencil.Proofs.Language.Sheet
import Stencil.Proofs.Language.Sight
import Stencil.Proofs.Language.Tags
import Stencil.Proofs.Language.Top
import Stencil.Proofs.Language.Twins
import Stencil.Proofs.Language.Weaving
import Stencil.Proofs.Loader.Containment
import Stencil.Proofs.Loader.Course
import Stencil.Proofs.Loader.Depth
import Stencil.Proofs.Loader.Graph
import Stencil.Proofs.Loader.History
import Stencil.Proofs.Loader.Load
import Stencil.Proofs.Loader.Memory
import Stencil.Proofs.Loader.Record
import Stencil.Proofs.Loader.Registry
import Stencil.Proofs.Loader.Run
import Stencil.Proofs.Loader.Session
import Stencil.Proofs.Loader.Termination
import Stencil.Proofs.Loader.Work
import Stencil.Proofs.Module
import Stencil.Proofs.Names
import Stencil.Proofs.Path
import Stencil.Proofs.Path.Canonical
import Stencil.Proofs.Path.Climbs
import Stencil.Proofs.Path.Lengthening
import Stencil.Proofs.Path.Significant
import Stencil.Proofs.Piece
import Stencil.Proofs.Piece.Leftmost
import Stencil.Proofs.Piece.Lines
import Stencil.Proofs.Reference
import Stencil.Proofs.Reference.Numbering
import Stencil.Proofs.Render.Escaping
import Stencil.Proofs.Render.Renaming
import Stencil.Proofs.Template
import Stencil.Proofs.Text.Distance
import Stencil.Proofs.Text.Lines
import Stencil.Proofs.Text.Search
import Stencil.Reference
import Stencil.Render.Arithmetic
import Stencil.Render.Body
import Stencil.Render.Call
import Stencil.Render.Expression
import Stencil.Render.Filter
import Stencil.Render.Filter.Fault
import Stencil.Render.Filter.OnList
import Stencil.Render.Filter.OnNumber
import Stencil.Render.Filter.OnText
import Stencil.Render.Function
import Stencil.Render.Kind
import Stencil.Render.Page
import Stencil.Render.Pointer
import Stencil.Render.Printed
import Stencil.Render.Problem
import Stencil.Render.Scope
import Stencil.Render.Stage
import Stencil.Render.Test
import Stencil.Render.Variable
import Stencil.Report
import Stencil.Store.Place
import Stencil.Store.Texts
import Stencil.Store.Url
import Stencil.Template
import Stencil.Text.Blank
import Stencil.Text.Case
import Stencil.Text.Case.Tables
import Stencil.Text.Digit
import Stencil.Text.Distance
import Stencil.Text.Html
import Stencil.Text.Lines
import Stencil.Text.Quoted
import Stencil.Text.Search
import Stencil.Text.Visible
import Stencil.Toml.Reader
import Stencil.Toml.Scalar
import Stencil.Toml.Value
