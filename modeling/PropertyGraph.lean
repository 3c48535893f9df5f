import PropertyGraph.Calendar.Date
import PropertyGraph.Calendar.Duration
import PropertyGraph.Config
import PropertyGraph.Error
import PropertyGraph.Eval
import PropertyGraph.Eval.Function
import PropertyGraph.Eval.Operator
import PropertyGraph.Hash.Sip
import PropertyGraph.Json.Basic
import PropertyGraph.Json.Grammar
import PropertyGraph.Number.Binary
import PropertyGraph.Number.Double
import PropertyGraph.Number.Reader
import PropertyGraph.Number.Written
import PropertyGraph.Pattern.Constraint
import PropertyGraph.Pattern.Match
import PropertyGraph.Pattern.Search
import PropertyGraph.Plan.Aggregate
import PropertyGraph.Plan.Compile
import PropertyGraph.Plan.Scope
import PropertyGraph.Plan.Stage
import PropertyGraph.Proofs.Calendar.Date
import PropertyGraph.Proofs.Calendar.Duration
import PropertyGraph.Proofs.Calendar.Printed
import PropertyGraph.Proofs.Collections
import PropertyGraph.Proofs.Eval.Conjunction
import PropertyGraph.Proofs.Eval.Local
import PropertyGraph.Proofs.Eval.NameSafe
import PropertyGraph.Proofs.Eval.Names
import PropertyGraph.Proofs.Eval.Quantified
import PropertyGraph.Proofs.Eval.Range
import PropertyGraph.Proofs.Eval.Scope
import PropertyGraph.Proofs.Eval.Substitution
import PropertyGraph.Proofs.Eval.Wider
import PropertyGraph.Proofs.Number.Bounded
import PropertyGraph.Proofs.Number.Exact
import PropertyGraph.Proofs.Number.Nearest
import PropertyGraph.Proofs.Number.Packing
import PropertyGraph.Proofs.Number.Place
import PropertyGraph.Proofs.Number.Rounding
import PropertyGraph.Proofs.Pattern.Bindings
import PropertyGraph.Proofs.Pattern.Blind
import PropertyGraph.Proofs.Pattern.Built
import PropertyGraph.Proofs.Pattern.Candidates
import PropertyGraph.Proofs.Pattern.Choice
import PropertyGraph.Proofs.Pattern.Declared
import PropertyGraph.Proofs.Pattern.Demands
import PropertyGraph.Proofs.Pattern.Exact
import PropertyGraph.Proofs.Pattern.Expanded
import PropertyGraph.Proofs.Pattern.Found
import PropertyGraph.Proofs.Pattern.Grown
import PropertyGraph.Proofs.Pattern.Joined
import PropertyGraph.Proofs.Pattern.Laid
import PropertyGraph.Proofs.Pattern.Linked
import PropertyGraph.Proofs.Pattern.Listed
import PropertyGraph.Proofs.Pattern.Narrower
import PropertyGraph.Proofs.Pattern.Partial
import PropertyGraph.Proofs.Pattern.Required
import PropertyGraph.Proofs.Pattern.Routes
import PropertyGraph.Proofs.Pattern.Sight
import PropertyGraph.Proofs.Pattern.Solution
import PropertyGraph.Proofs.Pattern.Start
import PropertyGraph.Proofs.Pattern.Ties
import PropertyGraph.Proofs.Pattern.Valued
import PropertyGraph.Proofs.Pattern.Walk
import PropertyGraph.Proofs.Plan.Apart
import PropertyGraph.Proofs.Plan.Checked
import PropertyGraph.Proofs.Plan.Clauses
import PropertyGraph.Proofs.Plan.Closed
import PropertyGraph.Proofs.Plan.Columns
import PropertyGraph.Proofs.Plan.Conserved
import PropertyGraph.Proofs.Plan.Demand
import PropertyGraph.Proofs.Plan.Eager
import PropertyGraph.Proofs.Plan.Isolated
import PropertyGraph.Proofs.Plan.Lifting
import PropertyGraph.Proofs.Plan.Merging
import PropertyGraph.Proofs.Plan.Pushdown
import PropertyGraph.Proofs.Plan.Released
import PropertyGraph.Proofs.Plan.Replaced
import PropertyGraph.Proofs.Plan.Scoped
import PropertyGraph.Proofs.Plan.Sight
import PropertyGraph.Proofs.Plan.Uncut
import PropertyGraph.Proofs.Query.Atoms
import PropertyGraph.Proofs.Query.Descent
import PropertyGraph.Proofs.Query.Ends
import PropertyGraph.Proofs.Query.EndsExpr
import PropertyGraph.Proofs.Query.Grouping
import PropertyGraph.Proofs.Query.Inside
import PropertyGraph.Proofs.Query.Inverse
import PropertyGraph.Proofs.Query.Levels
import PropertyGraph.Proofs.Query.Lexeme
import PropertyGraph.Proofs.Query.Lines
import PropertyGraph.Proofs.Query.Parts
import PropertyGraph.Proofs.Query.Reading
import PropertyGraph.Proofs.Query.Rendering
import PropertyGraph.Proofs.Query.Takes
import PropertyGraph.Proofs.Query.TakesClause
import PropertyGraph.Proofs.Query.Whole
import PropertyGraph.Proofs.Run.Aggregated
import PropertyGraph.Proofs.Run.Alike
import PropertyGraph.Proofs.Run.Arranged
import PropertyGraph.Proofs.Run.Asks
import PropertyGraph.Proofs.Run.Assembled
import PropertyGraph.Proofs.Run.Assigned
import PropertyGraph.Proofs.Run.Balanced
import PropertyGraph.Proofs.Run.Columns
import PropertyGraph.Proofs.Run.Counters
import PropertyGraph.Proofs.Run.Created
import PropertyGraph.Proofs.Run.Cursors
import PropertyGraph.Proofs.Run.Cut
import PropertyGraph.Proofs.Run.Deletion
import PropertyGraph.Proofs.Run.Eager
import PropertyGraph.Proofs.Run.FlatRow
import PropertyGraph.Proofs.Run.Gives
import PropertyGraph.Proofs.Run.Grouped
import PropertyGraph.Proofs.Run.Invariant
import PropertyGraph.Proofs.Run.Isolated
import PropertyGraph.Proofs.Run.Outcome
import PropertyGraph.Proofs.Run.Outer
import PropertyGraph.Proofs.Run.Placed
import PropertyGraph.Proofs.Run.Projected
import PropertyGraph.Proofs.Run.Reading
import PropertyGraph.Proofs.Run.Relabelled
import PropertyGraph.Proofs.Run.Releasing
import PropertyGraph.Proofs.Run.Removed
import PropertyGraph.Proofs.Run.Rising
import PropertyGraph.Proofs.Run.Rows
import PropertyGraph.Proofs.Run.Safe
import PropertyGraph.Proofs.Run.SafeMatching
import PropertyGraph.Proofs.Run.SafeProjecting
import PropertyGraph.Proofs.Run.SafeStages
import PropertyGraph.Proofs.Run.SafeWriting
import PropertyGraph.Proofs.Run.Unwritten
import PropertyGraph.Proofs.Snapshot.Bytes
import PropertyGraph.Proofs.Snapshot.Cells
import PropertyGraph.Proofs.Snapshot.Element
import PropertyGraph.Proofs.Snapshot.Restored
import PropertyGraph.Proofs.Store.Consistent
import PropertyGraph.Proofs.Store.Failed
import PropertyGraph.Proofs.Store.Growth
import PropertyGraph.Proofs.Store.Orderly
import PropertyGraph.Proofs.Store.Reachable
import PropertyGraph.Proofs.Store.Reading
import PropertyGraph.Proofs.Store.Removal
import PropertyGraph.Proofs.Store.Selected
import PropertyGraph.Proofs.Store.Sight
import PropertyGraph.Proofs.Store.Slots
import PropertyGraph.Proofs.Store.Totals
import PropertyGraph.Proofs.Store.Writes
import PropertyGraph.Proofs.Value.Lined
import PropertyGraph.Proofs.Value.Orderly
import PropertyGraph.Proofs.Value.Symmetry
import PropertyGraph.Query.Clause
import PropertyGraph.Query.Clause.Grammar
import PropertyGraph.Query.Expr
import PropertyGraph.Query.Expr.Grammar
import PropertyGraph.Query.Expr.Names
import PropertyGraph.Query.Expr.Same
import PropertyGraph.Query.Expr.Text
import PropertyGraph.Query.Grammar
import PropertyGraph.Query.Token
import PropertyGraph.Query.Token.Lexer
import PropertyGraph.Row
import PropertyGraph.Run.Accumulate
import PropertyGraph.Run.Flow
import PropertyGraph.Run.Matching
import PropertyGraph.Run.Projecting
import PropertyGraph.Run.State
import PropertyGraph.Run.Statement
import PropertyGraph.Run.Writing
import PropertyGraph.Snapshot
import PropertyGraph.Snapshot.Bytes
import PropertyGraph.Snapshot.Element
import PropertyGraph.Store.Basic
import PropertyGraph.Store.Filter
import PropertyGraph.Store.Links
import PropertyGraph.Store.Select
import PropertyGraph.Store.Slots
import PropertyGraph.Text.Basic
import PropertyGraph.Text.Case
import PropertyGraph.Text.CaseTable
import PropertyGraph.Text.PrintableTable
import PropertyGraph.Text.Quoted
import PropertyGraph.Value.Arithmetic
import PropertyGraph.Value.Basic
import PropertyGraph.Value.Convert
import PropertyGraph.Value.Entries
import PropertyGraph.Value.Json
import PropertyGraph.Value.Order
import PropertyGraph.Value.Text
import PropertyGraph.Visibility
