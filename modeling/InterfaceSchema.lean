import InterfaceSchema.Text.Blank
import InterfaceSchema.Text.Line
import InterfaceSchema.Layout
import InterfaceSchema.Span
import InterfaceSchema.SyntaxError
import InterfaceSchema.Token
import InterfaceSchema.Schema.Basic
import InterfaceSchema.Schema.Rule
import InterfaceSchema.Schema.Reader
import InterfaceSchema.Schema.Printer
import InterfaceSchema.Schema.WellFormed
import InterfaceSchema.Json
import InterfaceSchema.Schema.Json
import InterfaceSchema.Options
import InterfaceSchema.Fact
import InterfaceSchema.SemanticError
import InterfaceSchema.Log
import InterfaceSchema.Template.Registry
import InterfaceSchema.Template.Scope
import InterfaceSchema.Template.Renaming
import InterfaceSchema.Template.Traversal
import InterfaceSchema.Emission
import InterfaceSchema.Template.Expansion
import InterfaceSchema.Compile
import InterfaceSchema.Environment
import InterfaceSchema.Files
import InterfaceSchema.Files.Tree
import InterfaceSchema.Fixture
import InterfaceSchema.Toml
import InterfaceSchema.Toml.Reader
import InterfaceSchema.Toml.Layer
import InterfaceSchema.Settings
import InterfaceSchema.Toml.Settings
import InterfaceSchema.Command.Invocation
import InterfaceSchema.Command.Arguments
import InterfaceSchema.Command.Run
import InterfaceSchema.Main
import InterfaceSchema.Proofs.Success
import InterfaceSchema.Proofs.Equality
import InterfaceSchema.Proofs.Registration
import InterfaceSchema.Proofs.Occurrence
import InterfaceSchema.Proofs.Names
import InterfaceSchema.Proofs.Substitution
import InterfaceSchema.Proofs.Places
import InterfaceSchema.Proofs.Sharing
import InterfaceSchema.Proofs.Expansion.Traversal
import InterfaceSchema.Proofs.Expansion.Run
import InterfaceSchema.Proofs.Expansion.Places
import InterfaceSchema.Proofs.Expansion.Agreement
import InterfaceSchema.Proofs.Expansion.Acceptance
import InterfaceSchema.Proofs.Expansion.Refusal
import InterfaceSchema.Proofs.Expansion.Instances
import InterfaceSchema.Proofs.Expansion.Isolation
import InterfaceSchema.Proofs.Expansion.Locality
import InterfaceSchema.Proofs.Expansion.Links
import InterfaceSchema.Proofs.Expansion.Freshness
import InterfaceSchema.Proofs.Expansion.Resolution
import InterfaceSchema.Proofs.Expansion.Placement
import InterfaceSchema.Proofs.Expansion.Parameters
import InterfaceSchema.Proofs.Expansion.Order
import InterfaceSchema.Proofs.Expansion.Unshared
import InterfaceSchema.Proofs.Expansion.Stack
import InterfaceSchema.Proofs.Expansion.Words
import InterfaceSchema.Proofs.Reading.Layout
import InterfaceSchema.Proofs.Reading.Tokens
import InterfaceSchema.Proofs.Reading.Rules
import InterfaceSchema.Proofs.Reading.Places
import InterfaceSchema.Proofs.Reading.Statements
import InterfaceSchema.Proofs.Reading.RoundTrip
import InterfaceSchema.Proofs.Reading.Printed
import InterfaceSchema.Proofs.Reading.Scanning
import InterfaceSchema.Proofs.Reading.Indentation
import InterfaceSchema.Proofs.Reading.Tiling
import InterfaceSchema.Proofs.Reading.Exactness
import InterfaceSchema.Proofs.Reading.Rejection
import InterfaceSchema.Proofs.Reading.Lookahead
import InterfaceSchema.Proofs.Reading.Lines
import InterfaceSchema.Proofs.Reading.Shifting
import InterfaceSchema.Proofs.Reading.Documents
import InterfaceSchema.Proofs.Reading.Canonical
import InterfaceSchema.Proofs.Reading.Picking
import InterfaceSchema.Proofs.Reading.Taking
import InterfaceSchema.Proofs.Reading.Soundness
import InterfaceSchema.Proofs.Reading.Cursor
import InterfaceSchema.Proofs.Reading.Tracking
import InterfaceSchema.Proofs.Readability
import InterfaceSchema.Proofs.Sites
import InterfaceSchema.Proofs.Reading.Sessions
import InterfaceSchema.Proofs.Reading.Faults
import InterfaceSchema.Proofs.Expansion.Relevance
import InterfaceSchema.Proofs.Histories
import InterfaceSchema.Proofs.JsonForm
import InterfaceSchema.Proofs.Trimming
import InterfaceSchema.Proofs.Logs
import InterfaceSchema.Proofs.Command.ReadOnly
import InterfaceSchema.Proofs.Command.Configuration
import InterfaceSchema.Proofs.Command.Sections
import InterfaceSchema.Proofs.Command.Layering
import InterfaceSchema.Proofs.Command.Writing
import InterfaceSchema.Proofs.Command.Invocations
import InterfaceSchema.Proofs.Command.Reading
import InterfaceSchema.Proofs.Command.Effects
import InterfaceSchema.Proofs.Fixtures.Loading
import InterfaceSchema.Proofs.Fixtures.Verdict
