import Stylesheet.Builtin.Arguments
import Stylesheet.Builtin.Collections
import Stylesheet.Builtin.Colors
import Stylesheet.Builtin.Functions
import Stylesheet.Builtin.Scalars
import Stylesheet.Export
import Stylesheet.Expr.Basic
import Stylesheet.Expr.Items
import Stylesheet.Expr.OfNode
import Stylesheet.Expr.Precedence
import Stylesheet.Extract.Basic
import Stylesheet.Extract.Run
import Stylesheet.Import.Files
import Stylesheet.Import.Lookup
import Stylesheet.Import.Request
import Stylesheet.Import.Tracked
import Stylesheet.Log
import Stylesheet.Name
import Stylesheet.Number.Binary
import Stylesheet.Number.Literal
import Stylesheet.Number.Notation
import Stylesheet.Number.Reading
import Stylesheet.Number.Shortest
import Stylesheet.Path
import Stylesheet.Plain.Basic
import Stylesheet.Plain.Json
import Stylesheet.Plain.OfValue
import Stylesheet.Render.Error
import Stylesheet.Render.Eval
import Stylesheet.Render.Exec
import Stylesheet.Render.Load
import Stylesheet.Render.Loops
import Stylesheet.Render.Run
import Stylesheet.Render.Scope
import Stylesheet.Render.State
import Stylesheet.Rule.Basic
import Stylesheet.Rule.Headers
import Stylesheet.Rule.OfNode
import Stylesheet.Settings
import Stylesheet.Syntax.Lexeme
import Stylesheet.Syntax.Node
import Stylesheet.Syntax.Outline
import Stylesheet.Syntax.Parse
import Stylesheet.Syntax.ParseError
import Stylesheet.Syntax.Pattern
import Stylesheet.Syntax.Print
import Stylesheet.Syntax.Query
import Stylesheet.Syntax.Span
import Stylesheet.Syntax.Token
import Stylesheet.Table
import Stylesheet.Text.Case
import Stylesheet.Text.CaseContext
import Stylesheet.Text.CaseTable
import Stylesheet.Text.Extending
import Stylesheet.Text.Quoted
import Stylesheet.Text.Range
import Stylesheet.Text.Unprintable
import Stylesheet.Value.Arithmetic
import Stylesheet.Value.Basic
import Stylesheet.Value.Color
import Stylesheet.Value.Equality
import Stylesheet.Value.Fault
import Stylesheet.Value.Pairs
import Stylesheet.Proofs.Syntax.Grammar
import Stylesheet.Proofs.Syntax.Lexing
import Stylesheet.Proofs.Syntax.Statements
import Stylesheet.Proofs.Syntax.RoundTrip
import Stylesheet.Proofs.Syntax.Places
import Stylesheet.Proofs.Syntax.Relexing
import Stylesheet.Proofs.Export.Relexed
import Stylesheet.Proofs.Export.Reread
import Stylesheet.Proofs.Export.Source
import Stylesheet.Proofs.Render.Calls
import Stylesheet.Proofs.Render.Comparison
import Stylesheet.Proofs.Render.Statements
import Stylesheet.Proofs.Render.Files
import Stylesheet.Proofs.Render.Simulation
import Stylesheet.Proofs.Import.Places
import Stylesheet.Proofs.Render.Loading
import Stylesheet.Proofs.Render.Traced
import Stylesheet.Proofs.Import.Once
import Stylesheet.Proofs.Render.History
import Stylesheet.Proofs.Render.Sights
import Stylesheet.Proofs.Expr.Elements
import Stylesheet.Proofs.Rule.Places
import Stylesheet.Proofs.Export.Declarations
import Stylesheet.Proofs.Extract.Assigned
import Stylesheet.Proofs.Extract.Mirror
import Stylesheet.Proofs.Extract.Lockstep
import Stylesheet.Proofs.Extract.Transparent
import Stylesheet.Proofs.Render.Concord
import Stylesheet.Proofs.Render.Scopes
import Stylesheet.Proofs.Render.Noted
import Stylesheet.Proofs.Render.Ledger
import Stylesheet.Proofs.Render.LedgerFiles
import Stylesheet.Proofs.Render.Deeds
import Stylesheet.Proofs.Render.Frames
import Stylesheet.Proofs.Render.Runs
import Stylesheet.Proofs.Render.Turns
import Stylesheet.Proofs.Render.Namespaces
import Stylesheet.Proofs.Render.Chains
import Stylesheet.Proofs.Render.Walks
import Stylesheet.Proofs.Render.Agreement
import Stylesheet.Proofs.Syntax.Kinds
import Stylesheet.Proofs.Syntax.Tiling
import Stylesheet.Proofs.Syntax.Spans
import Stylesheet.Proofs.Extract.Dependencies
import Stylesheet.Proofs.Render.Members
import Stylesheet.Proofs.Render.Forwarding
import Stylesheet.Proofs.Value.Closed
import Stylesheet.Proofs.Builtin.Outcomes
import Stylesheet.Proofs.Number.Groups
import Stylesheet.Proofs.Syntax.Numbers
import Stylesheet.Proofs.Expr.Literals
import Stylesheet.Proofs.Render.References
import Stylesheet.Proofs.Render.Holdings
import Stylesheet.Proofs.Render.Journal
import Stylesheet.Proofs.Render.Journaled
import Stylesheet.Proofs.Render.JournaledEval
import Stylesheet.Proofs.Render.JournaledExec
import Stylesheet.Proofs.Render.JournaledFiles
import Stylesheet.Proofs.Render.Invariants
import Stylesheet.Proofs.Render.Numbers
import Stylesheet.Proofs.Rule.Spelling
import Stylesheet.Proofs.Render.Spelling
import Stylesheet.Proofs.Extract.Exchanges
import Stylesheet.Proofs.Syntax.Shapes
import Stylesheet.Proofs.Render.Choices
import Stylesheet.Proofs.Expr.Muted
import Stylesheet.Proofs.Expr.Settled
import Stylesheet.Proofs.Expr.Commented
import Stylesheet.Proofs.Rule.Muted
import Stylesheet.Proofs.Rule.Sought
import Stylesheet.Proofs.Rule.Commented
import Stylesheet.Proofs.Rule.CommentedDeclarations
import Stylesheet.Proofs.Rule.CommentedStatements
import Stylesheet.Proofs.Syntax.Commented
import Stylesheet.Proofs.Syntax.Blanked
import Stylesheet.Proofs.Render.Muted
import Stylesheet.Proofs.Render.MutedStatements
import Stylesheet.Proofs.Render.Comments
import Stylesheet.Proofs.Export.Wrapping
import Stylesheet.Proofs.Syntax.Errors
import Stylesheet.Proofs.Syntax.Unfinished
import Stylesheet.Proofs.Expr.OperatorTrees
import Stylesheet.Proofs.Render.Binding
import Stylesheet.Proofs.Value.Equality
import Stylesheet.Proofs.Builtin.Maps
import Stylesheet.Proofs.Import.Request
import Stylesheet.Proofs.Path.Written
import Stylesheet.Proofs.Import.Resolution
import Stylesheet.Proofs.Table.LastWrites
import Stylesheet.Proofs.Plain.Conversion
import Stylesheet.Proofs.Extract.Views
import Stylesheet.Proofs.Render.Counting
import Stylesheet.Proofs.Syntax.Traversals
