import Stencil.Text.Basic
import Stencil.Text.Blank
import Stencil.Text.Word
import Stencil.Text.CaseMap
import Stencil.Markup.Escape
import Stencil.Markup.Region
import Stencil.Markup.Brace
import Stencil.Markup.Tag
import Stencil.Number.Digits
import Stencil.Number.Binary
import Stencil.Number.Integral
import Stencil.Number.Shortest
import Stencil.Number.Layout
import Stencil.Number.Numeral
import Stencil.Bindings
import Stencil.Json.Basic
import Stencil.Json.Printer
import Stencil.Json.Reader
import Stencil.Expr.Nesting
import Stencil.Expr.Literal
import Stencil.Expr.Token
import Stencil.Expr.Error
import Stencil.Expr.Lexer
import Stencil.Expr.Embedding
import Stencil.Expr.Tree
import Stencil.Expr.Rule
import Stencil.Expr.Parser
import Stencil.Text.Search
import Stencil.Text.Percent
import Stencil.Sorting
import Stencil.Context
import Stencil.Expr.Builtin
import Stencil.Expr.Value
import Stencil.Expr.Value.Json
import Stencil.Expr.Operation
import Stencil.Expr.Property
import Stencil.Expr.Eval
import Stencil.Expr.Position
import Stencil.Expr.Method.Array
import Stencil.Expr.Method.Text
import Stencil.Expr.Method.Number
import Stencil.Expr.Helper
import Stencil.Expr.Globals
import Stencil.Expr.Evaluator
import Stencil.Hash.Sip
import Stencil.Context.Digest
import Stencil.Memo
import Stencil.Config
import Stencil.Markup.Attribute
import Stencil.Partial.Invocation
import Stencil.Partial.Registry
import Stencil.Partial.Shelf
import Stencil.Render.SourceMap
import Stencil.Render.Error
import Stencil.Render.Renderer
import Stencil.Text.Width
import Stencil.Text.Line
import Stencil.Report.Colour
import Stencil.Report.Layout
import Stencil.Report.RenderError
import Stencil.Toml.Basic
import Stencil.Toml.Lexical
import Stencil.Toml.Scalar
import Stencil.Toml.Reader
import Stencil.Config.Toml
import Stencil.CommandLine.Arguments
import Stencil.CommandLine.Files
import Stencil.CommandLine.Run
import Stencil.Main
import Stencil.Proofs.Failure
import Stencil.Proofs.Markup.Escape
import Stencil.Proofs.Markup.Tiling
import Stencil.Proofs.Render.Passes
import Stencil.Proofs.Render.WithoutPartials
import Stencil.Proofs.Bindings
import Stencil.Proofs.Expr.Name
import Stencil.Proofs.Markup.Passing
import Stencil.Proofs.Partial.Registry
import Stencil.Proofs.Expr.Globals
import Stencil.Proofs.Markup.Tags
import Stencil.Proofs.Markup.Tagless
import Stencil.Proofs.Markup.Verbatim
import Stencil.Proofs.Markup.Slots
import Stencil.Proofs.Markup.Attributes
import Stencil.Proofs.Partial.Invocation
import Stencil.Proofs.Render.Single
import Stencil.Proofs.Render.Contents
import Stencil.Proofs.Render.Provenance
import Stencil.Proofs.Render.SourceMap
import Stencil.Proofs.Expr.Lookup
import Stencil.Proofs.Render.Demand
import Stencil.Proofs.Render.Unguarded
import Stencil.Proofs.Context.Digest
import Stencil.Proofs.Json.Compact
import Stencil.Proofs.Render.Cycle
import Stencil.Proofs.Number.Binary
import Stencil.Proofs.Number.Digits
import Stencil.Proofs.Number.Interval
import Stencil.Proofs.Number.Shortest
import Stencil.Proofs.Number.Layout
import Stencil.Proofs.Markup.Leftover
import Stencil.Proofs.Render.Rest
import Stencil.Proofs.Render.Bound
import Stencil.Proofs.Expr.Rule
import Stencil.Proofs.Expr.Grammar
import Stencil.Proofs.Expr.Unambiguous
import Stencil.Proofs.Expr.Reading
import Stencil.Proofs.Expr.Lexing
import Stencil.Proofs.Expr.Acceptance
import Stencil.Proofs.Expr.Parsing
import Stencil.Proofs.Expr.Balance
import Stencil.Proofs.Expr.Nesting
import Stencil.Proofs.Expr.Embedding
import Stencil.Proofs.Expr.Placement
import Stencil.Proofs.Expr.Comparison.Value
import Stencil.Proofs.Expr.Comparison.Operation
import Stencil.Proofs.Expr.Comparison.Eval
import Stencil.Proofs.Expr.Comparison.Builtin
import Stencil.Proofs.Expr.Comparison.Tree
import Stencil.Proofs.Expr.Comparison.Run
import Stencil.Proofs.Expr.Fragment
import Stencil.Proofs.Render.Strictness
import Stencil.Proofs.Render.Seam
import Stencil.Proofs.Render.Braced
import Stencil.Proofs.Render.Relay
import Stencil.Proofs.Render.Order
import Stencil.Proofs.Render.Reentry
import Stencil.Proofs.Render.Finished
import Stencil.Proofs.Expr.Interaction
import Stencil.Proofs.Expr.Limits
import Stencil.Proofs.Expr.Visits
import Stencil.Proofs.Render.Limits
import Stencil.Proofs.Render.Scopes
import Stencil.Proofs.Render.Course
import Stencil.Proofs.Render.Stack
import Stencil.Proofs.Render.Chain
import Stencil.Proofs.Text.Range
import Stencil.Proofs.Expr.Faithful
import Stencil.Proofs.Expr.Lexemes
import Stencil.Proofs.Expr.Seating
import Stencil.Proofs.Expr.Displacement
import Stencil.Proofs.Markup.Delimited
import Stencil.Proofs.Markup.Braces
import Stencil.Proofs.Markup.Fragments
import Stencil.Proofs.Expr.Pointing
import Stencil.Proofs.Expr.Blame
import Stencil.Proofs.Render.Spans
import Stencil.Proofs.Sorting
import Stencil.Proofs.Expr.Sort
import Stencil.Proofs.Expr.Scoping
import Stencil.Proofs.Expr.Alignment
import Stencil.Proofs.Expr.Renaming
import Stencil.Proofs.Expr.Chaining
import Stencil.Proofs.Expr.Bounded
import Stencil.Proofs.Expr.Callback
import Stencil.Proofs.Expr.Ending
import Stencil.Proofs.Number.Bits
import Stencil.Proofs.Number.Nearest
import Stencil.Proofs.Number.Rounding
import Stencil.Proofs.Number.Whole
import Stencil.Proofs.Number.Numeral
import Stencil.Proofs.Expr.Radix
import Stencil.Proofs.Number.Decimal
import Stencil.Proofs.Number.Literal
import Stencil.Proofs.Expr.Search
import Stencil.Proofs.Number.Truncation
import Stencil.Proofs.Number.Equal
import Stencil.Proofs.Expr.Index
import Stencil.Proofs.Expr.Position
import Stencil.Proofs.Text.Search
import Stencil.Proofs.Expr.Substring
import Stencil.Proofs.Expr.JsonRoundTrip
import Stencil.Proofs.Partial.History
import Stencil.Proofs.Partial.Shelf
import Stencil.Proofs.Expr.Closing
import Stencil.Proofs.Expr.Bytes
import Stencil.Proofs.Expr.Splitting
import Stencil.Proofs.Expr.Walk
import Stencil.Proofs.Expr.ByteWalk
import Stencil.Proofs.Expr.Equality
