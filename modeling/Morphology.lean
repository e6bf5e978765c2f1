import Morphology.Application
import Morphology.CommandLine
import Morphology.Console.Basic
import Morphology.Console.Command
import Morphology.Console.Dialogue
import Morphology.Console.Listing
import Morphology.Document.Basic
import Morphology.Document.Line
import Morphology.Document.Parse
import Morphology.Document.Render
import Morphology.Edit.Basic
import Morphology.Edit.Change
import Morphology.Edit.Edges
import Morphology.Edit.Morphs
import Morphology.Edit.Nodes
import Morphology.Edit.References
import Morphology.Entity
import Morphology.Graph.Basic
import Morphology.Graph.Export
import Morphology.Graph.Naming
import Morphology.Graph.Store
import Morphology.Grounding
import Morphology.Identity
import Morphology.Index
import Morphology.Json
import Morphology.Main
import Morphology.Number.Binary64
import Morphology.Number.Decimal
import Morphology.Number.Shortest
import Morphology.Pattern.Basic
import Morphology.Pattern.CharSet
import Morphology.Pattern.Error
import Morphology.Pattern.Parse
import Morphology.Pattern.Size
import Morphology.Proofs.Application
import Morphology.Proofs.Application.Account
import Morphology.Proofs.Application.Addition
import Morphology.Proofs.Application.Choice
import Morphology.Proofs.Application.Commutation
import Morphology.Proofs.Application.Composition
import Morphology.Proofs.Application.Creation
import Morphology.Proofs.Application.Faults
import Morphology.Proofs.Application.Making
import Morphology.Proofs.Application.Repetition
import Morphology.Proofs.Application.Writing
import Morphology.Proofs.Console.Typing
import Morphology.Proofs.Document.Builder
import Morphology.Proofs.Document.Composition
import Morphology.Proofs.Document.Emptied
import Morphology.Proofs.Document.Expansion
import Morphology.Proofs.Document.Header
import Morphology.Proofs.Document.Layout
import Morphology.Proofs.Document.Places
import Morphology.Proofs.Document.Reading
import Morphology.Proofs.Document.RoundTrip
import Morphology.Proofs.Document.Rows
import Morphology.Proofs.Edit.Change
import Morphology.Proofs.Edit.Choice
import Morphology.Proofs.Edit.Composite
import Morphology.Proofs.Edit.Deletion
import Morphology.Proofs.Edit.Edges
import Morphology.Proofs.Edit.Frame
import Morphology.Proofs.Edit.Morphs
import Morphology.Proofs.Edit.Nodes
import Morphology.Proofs.Edit.References
import Morphology.Proofs.Edit.Stamps
import Morphology.Proofs.Edit.Typing
import Morphology.Proofs.Edit.Upsert
import Morphology.Proofs.Edit.Walk
import Morphology.Proofs.Export.Content
import Morphology.Proofs.Export.Keeping
import Morphology.Proofs.Export.Labels
import Morphology.Proofs.Export.Ledger
import Morphology.Proofs.Export.Notation
import Morphology.Proofs.Export.Reapplication
import Morphology.Proofs.Export.Refinement
import Morphology.Proofs.Export.Replay
import Morphology.Proofs.Export.Wordy
import Morphology.Proofs.Graph.Agreement
import Morphology.Proofs.Graph.Choice
import Morphology.Proofs.Graph.Extension
import Morphology.Proofs.Graph.Frame
import Morphology.Proofs.Graph.Growth
import Morphology.Proofs.Graph.Holding
import Morphology.Proofs.Graph.Invariant
import Morphology.Proofs.Graph.MorphNames
import Morphology.Proofs.Graph.MorphNumbers
import Morphology.Proofs.Graph.Names
import Morphology.Proofs.Graph.Removal
import Morphology.Proofs.Graph.Subjects
import Morphology.Proofs.Identity
import Morphology.Proofs.Morph
import Morphology.Proofs.Naming
import Morphology.Proofs.Number.Rounding
import Morphology.Proofs.Outcome
import Morphology.Proofs.Overlooking
import Morphology.Proofs.Scenario.Directive
import Morphology.Proofs.Scenario.Loading
import Morphology.Proofs.Scenario.Operations
import Morphology.Proofs.Schema
import Morphology.Proofs.Schema.AllowedNumbers
import Morphology.Proofs.Schema.Building
import Morphology.Proofs.Schema.Configuration
import Morphology.Proofs.Schema.Hierarchy
import Morphology.Proofs.Schema.Invariant
import Morphology.Proofs.Schema.Subtype
import Morphology.Proofs.Search
import Morphology.Proofs.Search.Traversal
import Morphology.Proofs.Session.Attainable
import Morphology.Proofs.Session.Cascade
import Morphology.Proofs.Session.Choice
import Morphology.Proofs.Session.Composite
import Morphology.Proofs.Session.Creation
import Morphology.Proofs.Session.Duplicates
import Morphology.Proofs.Session.Guarded
import Morphology.Proofs.Session.Mentions
import Morphology.Proofs.Session.Naming
import Morphology.Proofs.Session.Operation
import Morphology.Proofs.Session.Reachable
import Morphology.Proofs.Session.Replacement
import Morphology.Proofs.Session.Spelling
import Morphology.Proofs.Session.States
import Morphology.Proofs.Session.Transitions
import Morphology.Proofs.Session.TypeDeletion
import Morphology.Proofs.Session.Typing
import Morphology.Proofs.Session.Versions
import Morphology.Proofs.Session.Walk
import Morphology.Proofs.Statement.Acceptance
import Morphology.Proofs.Statement.Columns
import Morphology.Proofs.Statement.Faults
import Morphology.Proofs.Statement.Grammar
import Morphology.Proofs.Statement.Lexing
import Morphology.Proofs.Statement.Reading
import Morphology.Proofs.Statement.Rendering
import Morphology.Proofs.Statement.RoundTrip
import Morphology.Proofs.Statement.Shift
import Morphology.Proofs.Statement.Tiling
import Morphology.Proofs.Table
import Morphology.Proofs.Text
import Morphology.Proofs.Transition.Cycle
import Morphology.Proofs.Transition.Storing
import Morphology.Proofs.Transition.Titles
import Morphology.Proofs.View
import Morphology.Proofs.View.Score
import Morphology.Refusal
import Morphology.Report
import Morphology.Scenario.Directive
import Morphology.Scenario.Expectation
import Morphology.Scenario.Operations
import Morphology.Scenario.Run
import Morphology.Schema.Basic
import Morphology.Schema.Change
import Morphology.Schema.Edit
import Morphology.Schema.Plan
import Morphology.Search
import Morphology.Session.Basic
import Morphology.Session.Operation
import Morphology.Session.Types
import Morphology.Settings
import Morphology.Settings.Toml
import Morphology.Statement.Basic
import Morphology.Statement.Error
import Morphology.Statement.Parse
import Morphology.Statement.Token
import Morphology.Table
import Morphology.Text.Blank
import Morphology.Text.CaseData
import Morphology.Text.Fold
import Morphology.Text.HiddenData
import Morphology.Text.Letter
import Morphology.Text.LetterData
import Morphology.Text.Lowercase
import Morphology.Text.Quoted
import Morphology.Text.Split
import Morphology.Toml.Basic
import Morphology.Toml.Lexeme
import Morphology.Toml.Number
import Morphology.Toml.Parse
import Morphology.Toml.Reader
import Morphology.Transition.Basic
import Morphology.Transition.Cycle
import Morphology.Value
import Morphology.View.Basic
import Morphology.View.Json
import Morphology.View.Score
