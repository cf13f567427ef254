import TypeStyle.Text.Offset
import TypeStyle.Text.Span
import TypeStyle.Text.Blank
import TypeStyle.Text.Edit
import TypeStyle.Text.Quoted
import TypeStyle.Syntax.NodeId
import TypeStyle.Syntax.Trivia
import TypeStyle.Syntax.TypeExpr
import TypeStyle.Syntax.Expr
import TypeStyle.Syntax.Site
import TypeStyle.Syntax.Stmt
import TypeStyle.Layout.Doc
import TypeStyle.Layout.Page
import TypeStyle.Tree.Basic
import TypeStyle.Tree.Draft
import TypeStyle.Text.NameSet
import TypeStyle.Types.Spelling
import TypeStyle.Types.Facts
import TypeStyle.Report.Diagnostic
import TypeStyle.Report.Queue
import TypeStyle.Lint.Finding
import TypeStyle.Lint.Obstacle
import TypeStyle.Lint.Preference
import TypeStyle.Lint.Batch
import TypeStyle.Lint.Fixture
import TypeStyle.Lint.Stop
import TypeStyle.Proofs.Layout.Part
import TypeStyle.Proofs.Layout.Trace
import TypeStyle.Proofs.Tree.Page
import TypeStyle.Proofs.Tree.Retype
import TypeStyle.Proofs.Tree.Run
import TypeStyle.Proofs.Tree.Identity
import TypeStyle.Proofs.Tree.Mark
import TypeStyle.Proofs.Layout.Fence
import TypeStyle.Proofs.Lint.Obstacle
import TypeStyle.Proofs.Types.Facts
import TypeStyle.Proofs.Lint.Judgement
import TypeStyle.Proofs.Lint.Convergence
import TypeStyle.Proofs.Layout.Respell
import TypeStyle.Proofs.Tree.Splice
import TypeStyle.Proofs.Tree.Rendering
import TypeStyle.Proofs.Layout.Pieces
import TypeStyle.Proofs.Text.Bytewise
import TypeStyle.Proofs.Lint.QuickFix
import TypeStyle.Proofs.Lint.Preference
import TypeStyle.Proofs.Lint.Faults
import TypeStyle.Proofs.Tree.Likeness
import TypeStyle.Proofs.Lint.Order
import TypeStyle.Proofs.Tree.Place
import TypeStyle.Proofs.Lint.Acceptance
import TypeStyle.Proofs.Lint.Staleness
import TypeStyle.Proofs.Lint.RoundTrip
import TypeStyle.Proofs.Types.Nameless
import TypeStyle.Proofs.Layout.Ascent
import TypeStyle.Proofs.Tree.Sequence
import TypeStyle.Proofs.Lint.Reported
import TypeStyle.Proofs.Report.Queue
import TypeStyle.Proofs.Lint.ScanOrder
import TypeStyle.Proofs.Tree.Overwrite
import TypeStyle.Proofs.Tree.Grounded
import TypeStyle.Proofs.Tree.Provider
import TypeStyle.Proofs.Text.ByteOrder
import TypeStyle.Proofs.Lint.Turn
import TypeStyle.Proofs.Lint.Imports
import TypeStyle.Proofs.Lint.Policies
import TypeStyle.Proofs.Text.Simultaneous
import TypeStyle.Proofs.Text.Smallest
import TypeStyle.Proofs.Tree.Innermost
import TypeStyle.Proofs.Lint.Explicit
import TypeStyle.Proofs.Report.Requests
import TypeStyle.Proofs.Layout.Differ
import TypeStyle.Proofs.Tree.Distribution
import TypeStyle.Proofs.Tree.Patterns
import TypeStyle.Proofs.Types.Namespaces
import TypeStyle.Proofs.Types.Reading
import TypeStyle.Proofs.Types.Outcome
