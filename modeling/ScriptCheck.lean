import ScriptCheck.Check.Call
import ScriptCheck.Check.Expression
import ScriptCheck.Check.Monad
import ScriptCheck.Check.Operand
import ScriptCheck.Check.Options
import ScriptCheck.Check.Program
import ScriptCheck.Check.Statement
import ScriptCheck.CommandLine
import ScriptCheck.Diagnostic
import ScriptCheck.Fault
import ScriptCheck.Folding
import ScriptCheck.Frame.Access
import ScriptCheck.Frame.Basic
import ScriptCheck.Grammar.Expression
import ScriptCheck.Grammar.Function
import ScriptCheck.Grammar.Parse
import ScriptCheck.Grammar.Power
import ScriptCheck.Grammar.Program
import ScriptCheck.Grammar.Statement
import ScriptCheck.Main
import ScriptCheck.Number.Binary
import ScriptCheck.Number.Reader
import ScriptCheck.Number.Shortest
import ScriptCheck.Number.Text
import ScriptCheck.Operator
import ScriptCheck.Record
import ScriptCheck.Report
import ScriptCheck.Scope.Basic
import ScriptCheck.Scope.Build
import ScriptCheck.Source.Excerpt
import ScriptCheck.Source.Position
import ScriptCheck.Source.Reader
import ScriptCheck.Text.Blank
import ScriptCheck.Text.Extending
import ScriptCheck.Text.Quoted
import ScriptCheck.Text.Split
import ScriptCheck.Text.Units
import ScriptCheck.Text.Unprintable
import ScriptCheck.Token.Basic
import ScriptCheck.Token.Escape
import ScriptCheck.Token.Lexer
import ScriptCheck.Tree.Basic
import ScriptCheck.Types.Access
import ScriptCheck.Types.Assignable
import ScriptCheck.Types.Constant
import ScriptCheck.Types.Join
import ScriptCheck.Types.Kind
import ScriptCheck.Types.Member
import ScriptCheck.Types.Store
import ScriptCheck.Value.Basic
import ScriptCheck.Value.Equality
import ScriptCheck.Value.Operators
import ScriptCheck.Proofs.Grammar.Triple
import ScriptCheck.Proofs.Grammar.Layout
import ScriptCheck.Proofs.Scope.Build
import ScriptCheck.Proofs.Scope.Walk
import ScriptCheck.Proofs.Frame.Links
import ScriptCheck.Proofs.Tree.Enclosing
import ScriptCheck.Proofs.Frame.Trace
import ScriptCheck.Proofs.Types.Growth
import ScriptCheck.Proofs.Frame.Access
import ScriptCheck.Proofs.Check.Agree
import ScriptCheck.Proofs.Check.Operand
import ScriptCheck.Proofs.Check.Place
import ScriptCheck.Proofs.Check.Call
import ScriptCheck.Proofs.Check.Expression
import ScriptCheck.Proofs.Check.Statement
import ScriptCheck.Proofs.Check.Program
import ScriptCheck.Proofs.Check.Trace
import ScriptCheck.Proofs.Types.Merge
import ScriptCheck.Proofs.Types.Follow
import ScriptCheck.Proofs.Types.Restart
import ScriptCheck.Proofs.Types.Look
import ScriptCheck.Proofs.Types.Sight
import ScriptCheck.Proofs.Types.Names
import ScriptCheck.Proofs.Types.Yield
import ScriptCheck.Proofs.Types.Cover
import ScriptCheck.Proofs.Types.Lossless
import ScriptCheck.Proofs.Folding.Derivation
import ScriptCheck.Proofs.Folding.Memo
import ScriptCheck.Proofs.Value.Identity
import ScriptCheck.Proofs.Types.Fresh
import ScriptCheck.Proofs.Types.Known
import ScriptCheck.Proofs.Types.Shallow
import ScriptCheck.Proofs.Types.Widen
import ScriptCheck.Proofs.Folding.Closed
import ScriptCheck.Proofs.Check.Constant
import ScriptCheck.Proofs.Types.View
import ScriptCheck.Proofs.Types.Comparison
import ScriptCheck.Proofs.Types.Steady
import ScriptCheck.Proofs.Types.Render
import ScriptCheck.Proofs.Types.Decision
import ScriptCheck.Proofs.Types.Extend
import ScriptCheck.Proofs.Types.Bound
import ScriptCheck.Proofs.Types.Forms
import ScriptCheck.Proofs.Grammar.Writing
import ScriptCheck.Proofs.Grammar.Standing
import ScriptCheck.Proofs.Grammar.Reading
import ScriptCheck.Proofs.Grammar.Inverse
import ScriptCheck.Proofs.Grammar.Strung
import ScriptCheck.Proofs.Grammar.Telling
import ScriptCheck.Proofs.Grammar.Order
import ScriptCheck.Proofs.Token.Rising
import ScriptCheck.Proofs.Tree.SourceOrder
import ScriptCheck.Proofs.Types.Lead
import ScriptCheck.Proofs.Types.Canonical
import ScriptCheck.Proofs.Types.Provide
import ScriptCheck.Proofs.Types.Variants
import ScriptCheck.Proofs.Types.Operation
import ScriptCheck.Proofs.Types.Obtain
import ScriptCheck.Proofs.Scope.Reporting
import ScriptCheck.Proofs.Check.Reporting
import ScriptCheck.Proofs.Token.Lexical
import ScriptCheck.Proofs.Token.Munch
import ScriptCheck.Proofs.Token.Partition
import ScriptCheck.Proofs.Tree.Preorder
import ScriptCheck.Proofs.Scope.Tables
import ScriptCheck.Proofs.Scope.Trail
import ScriptCheck.Proofs.Scope.Resolve
import ScriptCheck.Proofs.Scope.Whole
import ScriptCheck.Proofs.Scope.Structure
import ScriptCheck.Proofs.Grammar.Naming
import ScriptCheck.Proofs.Scope.Reference
import ScriptCheck.Proofs.Types.Access
import ScriptCheck.Proofs.Types.Compute
import ScriptCheck.Proofs.Types.Closed
import ScriptCheck.Proofs.Types.InStep
import ScriptCheck.Proofs.Text.Segments
import ScriptCheck.Proofs.Diagnostic.Merging
import ScriptCheck.Proofs.Types.Depthless
import ScriptCheck.Proofs.Frame.Overlay
import ScriptCheck.Proofs.Scope.Writes
import ScriptCheck.Proofs.Frame.Written
import ScriptCheck.Proofs.Check.WriteCounts
import ScriptCheck.Proofs.Frame.Transparent
import ScriptCheck.Proofs.Types.Lacking
import ScriptCheck.Proofs.Types.Missing
import ScriptCheck.Proofs.Types.Readback
import ScriptCheck.Proofs.Check.Follow
import ScriptCheck.Proofs.Check.Still
import ScriptCheck.Proofs.Check.Growing
import ScriptCheck.Proofs.Check.Splitting
import ScriptCheck.Proofs.Token.Literal
import ScriptCheck.Proofs.Scope.Marking
import ScriptCheck.Proofs.Scope.Stores
import ScriptCheck.Proofs.Grammar.Pairing
import ScriptCheck.Proofs.Grammar.Paired
import ScriptCheck.Proofs.Grammar.Progress
import ScriptCheck.Proofs.Grammar.Texts
import ScriptCheck.Proofs.Value.Loose
import ScriptCheck.Proofs.Number.Whole
import ScriptCheck.Proofs.Value.Indexing
import ScriptCheck.Proofs.Source.Lines
import ScriptCheck.Proofs.Source.Excerpt
