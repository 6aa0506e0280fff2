import TreeQuery.Atomic
import TreeQuery.Atomic.Cast
import TreeQuery.AtomicType
import TreeQuery.Command
import TreeQuery.Context
import TreeQuery.Error
import TreeQuery.Evaluation
import TreeQuery.Evaluation.Call
import TreeQuery.Evaluation.Path
import TreeQuery.Expr
import TreeQuery.Expr.Canonical
import TreeQuery.Expr.Equality
import TreeQuery.Expr.Grouping
import TreeQuery.Expr.Parser
import TreeQuery.Expr.Parser.Basic
import TreeQuery.Expr.Parser.Names
import TreeQuery.Forest
import TreeQuery.Item
import TreeQuery.Item.Access
import TreeQuery.Item.Atomize
import TreeQuery.Item.Cast
import TreeQuery.Item.Equality
import TreeQuery.Item.MapKey
import TreeQuery.Item.Render
import TreeQuery.Item.Table
import TreeQuery.Item.Typing
import TreeQuery.Library
import TreeQuery.Library.Collections
import TreeQuery.Library.Functions
import TreeQuery.Library.Nodes
import TreeQuery.Library.Numbers
import TreeQuery.Library.Sequences
import TreeQuery.Library.Signature
import TreeQuery.Library.Texts
import TreeQuery.Main
import TreeQuery.Markup
import TreeQuery.Markup.Character
import TreeQuery.Markup.Event
import TreeQuery.Markup.Namespace
import TreeQuery.Markup.Reference
import TreeQuery.Markup.Scan
import TreeQuery.Markup.Text
import TreeQuery.Name
import TreeQuery.Number.Binary
import TreeQuery.Number.Binary.Shortest
import TreeQuery.Number.Binary.Text
import TreeQuery.Number.Conversion
import TreeQuery.Number.Decimal
import TreeQuery.Number.Decimal.Arithmetic
import TreeQuery.Number.Decimal.Quotient
import TreeQuery.Number.Decimal.Remainder
import TreeQuery.Number.Decimal.Text
import TreeQuery.Number.Integer
import TreeQuery.Number.Numeric
import TreeQuery.Number.Power
import TreeQuery.Operator
import TreeQuery.Operator.Arithmetic
import TreeQuery.Operator.Comparison
import TreeQuery.Operator.Joining
import TreeQuery.Proofs.Atomic.Cast
import TreeQuery.Proofs.Atomic.RoundTrip
import TreeQuery.Proofs.Evaluation.Bindings
import TreeQuery.Proofs.Evaluation.Calls
import TreeQuery.Proofs.Evaluation.Congruence
import TreeQuery.Proofs.Evaluation.Descendants
import TreeQuery.Proofs.Evaluation.Errors
import TreeQuery.Proofs.Evaluation.Following
import TreeQuery.Proofs.Evaluation.Keeping
import TreeQuery.Proofs.Evaluation.Levels
import TreeQuery.Proofs.Evaluation.Limits
import TreeQuery.Proofs.Evaluation.Lookups
import TreeQuery.Proofs.Evaluation.Maps
import TreeQuery.Proofs.Evaluation.Paths
import TreeQuery.Proofs.Evaluation.Positions
import TreeQuery.Proofs.Evaluation.Quantifiers
import TreeQuery.Proofs.Evaluation.References
import TreeQuery.Proofs.Evaluation.Related
import TreeQuery.Proofs.Evaluation.Scopes
import TreeQuery.Proofs.Evaluation.Splicing
import TreeQuery.Proofs.Evaluation.Stack
import TreeQuery.Proofs.Evaluation.Stages
import TreeQuery.Proofs.Evaluation.Unchanged
import TreeQuery.Proofs.Evaluation.Values
import TreeQuery.Proofs.Evaluation.WellFormed
import TreeQuery.Proofs.Expr.Children
import TreeQuery.Proofs.Expr.Commas
import TreeQuery.Proofs.Expr.Grouping
import TreeQuery.Proofs.Expr.Heights
import TreeQuery.Proofs.Expr.Printed
import TreeQuery.Proofs.Expr.Reread
import TreeQuery.Proofs.Expr.Text
import TreeQuery.Proofs.Expr.Tidy
import TreeQuery.Proofs.Expr.WellFormed
import TreeQuery.Proofs.Forest
import TreeQuery.Proofs.Item.Access
import TreeQuery.Proofs.Item.Atomize
import TreeQuery.Proofs.Item.Closed
import TreeQuery.Proofs.Item.Compact
import TreeQuery.Proofs.Item.Counts
import TreeQuery.Proofs.Item.Data
import TreeQuery.Proofs.Item.Equality
import TreeQuery.Proofs.Item.Fitted
import TreeQuery.Proofs.Item.Flat
import TreeQuery.Proofs.Item.MapKey
import TreeQuery.Proofs.Item.Table
import TreeQuery.Proofs.Item.WellFormed
import TreeQuery.Proofs.Library.Distinct
import TreeQuery.Proofs.Library.Related
import TreeQuery.Proofs.Library.Rounding
import TreeQuery.Proofs.Library.Texts
import TreeQuery.Proofs.Markup.Attributes
import TreeQuery.Proofs.Number.Binary
import TreeQuery.Proofs.Number.DecimalText
import TreeQuery.Proofs.Number.DoubleText
import TreeQuery.Proofs.Number.Grouped
import TreeQuery.Proofs.Number.Nearest
import TreeQuery.Proofs.Number.Normalize
import TreeQuery.Proofs.Number.Numeral
import TreeQuery.Proofs.Number.Order
import TreeQuery.Proofs.Number.Quotient
import TreeQuery.Proofs.Number.Remainder
import TreeQuery.Proofs.Number.Round
import TreeQuery.Proofs.Number.Value
import TreeQuery.Proofs.Operator.Comparison
import TreeQuery.Proofs.Operator.Division
import TreeQuery.Proofs.Operator.NodeSets
import TreeQuery.Proofs.Parser.Accounts
import TreeQuery.Proofs.Parser.Atoms
import TreeQuery.Proofs.Parser.Axes
import TreeQuery.Proofs.Parser.Brackets
import TreeQuery.Proofs.Parser.Chains
import TreeQuery.Proofs.Parser.Congruence
import TreeQuery.Proofs.Parser.Constructors
import TreeQuery.Proofs.Parser.Counts
import TreeQuery.Proofs.Parser.Data
import TreeQuery.Proofs.Parser.Groups
import TreeQuery.Proofs.Parser.Heights
import TreeQuery.Proofs.Parser.Infix
import TreeQuery.Proofs.Parser.Keywords
import TreeQuery.Proofs.Parser.KindTests
import TreeQuery.Proofs.Parser.Layout
import TreeQuery.Proofs.Parser.Literals
import TreeQuery.Proofs.Parser.Names
import TreeQuery.Proofs.Parser.Operands
import TreeQuery.Proofs.Parser.Paths
import TreeQuery.Proofs.Parser.Persists
import TreeQuery.Proofs.Parser.Position
import TreeQuery.Proofs.Parser.Precedence
import TreeQuery.Proofs.Parser.Progress
import TreeQuery.Proofs.Parser.Reads
import TreeQuery.Proofs.Parser.RoundTrip
import TreeQuery.Proofs.Parser.Stability
import TreeQuery.Proofs.Parser.Steps
import TreeQuery.Proofs.Parser.Strings
import TreeQuery.Proofs.Parser.Types
import TreeQuery.Proofs.Parser.Unreserved
import TreeQuery.Proofs.Registry
import TreeQuery.Proofs.Search
import TreeQuery.Proofs.Session
import TreeQuery.Proofs.Text.Search
import TreeQuery.Proofs.Token.Digits
import TreeQuery.Proofs.Token.Gaps
import TreeQuery.Proofs.Token.Nested
import TreeQuery.Proofs.Token.Next
import TreeQuery.Proofs.Token.Pieces
import TreeQuery.Proofs.Token.Places
import TreeQuery.Proofs.Token.QName
import TreeQuery.Proofs.Token.Words
import TreeQuery.Proofs.Tree.Axes
import TreeQuery.Proofs.Tree.Built
import TreeQuery.Proofs.Tree.Find
import TreeQuery.Proofs.Tree.Navigation
import TreeQuery.Proofs.Tree.Preorder
import TreeQuery.Proofs.Tree.Texts
import TreeQuery.Proofs.Tree.Walk
import TreeQuery.Registry
import TreeQuery.SequenceType
import TreeQuery.Session
import TreeQuery.Text.Blank
import TreeQuery.Text.Case
import TreeQuery.Text.CaseTable
import TreeQuery.Text.Escaped
import TreeQuery.Text.GraphicTable
import TreeQuery.Text.Letter
import TreeQuery.Text.LetterTable
import TreeQuery.Text.Lines
import TreeQuery.Text.Quoted
import TreeQuery.Text.Search
import TreeQuery.Token
import TreeQuery.Token.Scan
import TreeQuery.Tree
import TreeQuery.Tree.Axes
import TreeQuery.Tree.Catalogue
import TreeQuery.Tree.NodeTest
import TreeQuery.Tree.Order
import TreeQuery.Tree.Walk
