import StopMotion.Artifact
import StopMotion.Checker.Output
import StopMotion.Checker.Process
import StopMotion.CommandLine.Data
import StopMotion.CommandLine.Outcome
import StopMotion.CommandLine.Request
import StopMotion.CommandLine.Run
import StopMotion.Deploy
import StopMotion.Disk.Files
import StopMotion.Disk.Host
import StopMotion.Disk.Path
import StopMotion.Disk.Tree
import StopMotion.Document
import StopMotion.Document.Decoder
import StopMotion.Document.Printer
import StopMotion.Document.Reader
import StopMotion.Frame.ClosedForm
import StopMotion.Frame.Drive
import StopMotion.Frame.Entropy
import StopMotion.Frame.Formula
import StopMotion.Frame.Fresh
import StopMotion.Frame.Placeholder
import StopMotion.Frame.Removal
import StopMotion.Frame.Scene
import StopMotion.Frame.Substitution
import StopMotion.Hash.Fnv
import StopMotion.Hash.Xxh3
import StopMotion.Main
import StopMotion.Number.Count
import StopMotion.Number.Decimal
import StopMotion.Number.Parts
import StopMotion.Project.Fault
import StopMotion.Project.Integrity
import StopMotion.Project.Lock
import StopMotion.Project.Manifest
import StopMotion.Project.Recovery
import StopMotion.Project.Template
import StopMotion.Proofs.Frame.Clearing
import StopMotion.Proofs.Frame.Entropy
import StopMotion.Proofs.Frame.Formula
import StopMotion.Proofs.Frame.Provenance
import StopMotion.Proofs.Frame.Reads
import StopMotion.Proofs.Frame.Removal
import StopMotion.Proofs.Frame.Substitution
import StopMotion.Proofs.State.Classify
import StopMotion.Proofs.State.Collection
import StopMotion.Proofs.State.Component
import StopMotion.Proofs.Syntax.Grammar
import StopMotion.Proofs.Syntax.Grammar.Expression
import StopMotion.Proofs.Syntax.Grammar.Function
import StopMotion.Proofs.Syntax.Grammar.Jsx
import StopMotion.Proofs.Syntax.Grammar.Pattern
import StopMotion.Proofs.Syntax.Grammar.Statement
import StopMotion.Proofs.Syntax.Grammar.Type
import StopMotion.Proofs.Syntax.Layout
import StopMotion.Proofs.Syntax.Plan
import StopMotion.Proofs.Syntax.Progress
import StopMotion.Proofs.Syntax.Reading
import StopMotion.Proofs.Syntax.Refusal
import StopMotion.Proofs.Syntax.Region
import StopMotion.Proofs.Syntax.Spans
import StopMotion.Proofs.Syntax.Step
import StopMotion.Proofs.Syntax.Token
import StopMotion.Proofs.Syntax.Visit
import StopMotion.Proofs.Text.Edge
import StopMotion.Proofs.Text.Edit
import StopMotion.Proofs.Text.Indent
import StopMotion.Render
import StopMotion.Repair.Fix
import StopMotion.Repair.Quotes
import StopMotion.Settings
import StopMotion.State.Binding
import StopMotion.State.Callable
import StopMotion.State.Classify
import StopMotion.State.Collection
import StopMotion.State.Component
import StopMotion.State.Locals
import StopMotion.State.Motion
import StopMotion.Syntax.Error
import StopMotion.Syntax.Grammar
import StopMotion.Syntax.Grammar.Basic
import StopMotion.Syntax.Grammar.Expression
import StopMotion.Syntax.Grammar.Function
import StopMotion.Syntax.Grammar.Jsx
import StopMotion.Syntax.Grammar.Pattern
import StopMotion.Syntax.Grammar.Statement
import StopMotion.Syntax.Grammar.Type
import StopMotion.Syntax.Operator
import StopMotion.Syntax.Target
import StopMotion.Syntax.Token
import StopMotion.Syntax.Token.Lexer
import StopMotion.Syntax.Tree
import StopMotion.Syntax.Visit
import StopMotion.Text.CharClass
import StopMotion.Text.Cursor
import StopMotion.Text.Edit
import StopMotion.Text.Indent
import StopMotion.Text.LineIndex
import StopMotion.Text.Pieces
import StopMotion.Text.Quoted
import StopMotion.Text.Slice
import StopMotion.Transpile
import StopMotion.Validation.Finding
import StopMotion.Validation.Misuse
import StopMotion.Validation.Outline
import StopMotion.Validation.Report
import StopMotion.Validation.Scope
import StopMotion.Validation.Sentinels
import StopMotion.Proofs.Repair.Pass
import StopMotion.Proofs.Repair.FixedPoint
import StopMotion.Proofs.Transpile
import StopMotion.Proofs.Disk.Growth
import StopMotion.Proofs.Disk.Clear
import StopMotion.Proofs.Project.Lock
import StopMotion.Proofs.Project.Manifest
import StopMotion.Proofs.Project.Recovery
import StopMotion.Proofs.Project.Failure
import StopMotion.Proofs.Project.Fit
import StopMotion.Proofs.Project.Installation
import StopMotion.Proofs.Validation.Layers
import StopMotion.Proofs.Validation.Declaration
import StopMotion.Proofs.Validation.Scope
import StopMotion.Proofs.Frame.Origin
import StopMotion.Proofs.Text.Kept
import StopMotion.Proofs.Frame.Account
import StopMotion.Proofs.Frame.Untouched
import StopMotion.Proofs.State.Frozen
import StopMotion.Proofs.State.Loop
import StopMotion.Proofs.Syntax.Beside
import StopMotion.Proofs.State.Callable
import StopMotion.Proofs.State.Reach
import StopMotion.Proofs.State.Timer
import StopMotion.Proofs.Validation.Resolution
import StopMotion.Proofs.Validation.Stack
import StopMotion.Proofs.State.Locals
import StopMotion.Proofs.Text.Quoted
import StopMotion.Proofs.Repair.Line
import StopMotion.Proofs.Repair.Quoted
import StopMotion.Proofs.Repair.Twin
import StopMotion.Proofs.Repair.Undoing
import StopMotion.Proofs.Validation.Quiet
import StopMotion.Proofs.Placeholder.Reading
import StopMotion.Proofs.Placeholder.Fallback
import StopMotion.Proofs.CommandLine.Batch
import StopMotion.Proofs.Frame.Fresh
import StopMotion.Proofs.Frame.Hygiene
import StopMotion.Proofs.Project.Place
import StopMotion.Proofs.Project.Specifier
import StopMotion.Proofs.Project.Composition
import StopMotion.Proofs.Project.Template
import StopMotion.Proofs.Number.Whole
import StopMotion.Proofs.Number.Integer
import StopMotion.Proofs.Number.Shape
import StopMotion.Proofs.Syntax.Spelling
import StopMotion.Proofs.Syntax.Run.Line
import StopMotion.Proofs.Syntax.Run.Operator
import StopMotion.Proofs.Syntax.Run.Arrow
import StopMotion.Proofs.Syntax.Run.Declaration
import StopMotion.Proofs.Syntax.Run.Expression
import StopMotion.Proofs.Syntax.Run.Access
import StopMotion.Proofs.Frame.Value
import StopMotion.Proofs.Frame.Denotation
import StopMotion.Proofs.Frame.ClosedForm
import StopMotion.Proofs.Frame.Limit
import StopMotion.Proofs.Frame.Embedding
import StopMotion.Proofs.Syntax.Depth.Step
import StopMotion.Proofs.Syntax.Depth.Grammar
import StopMotion.Proofs.Syntax.Depth.Reads
import StopMotion.Proofs.Syntax.Precedence.Grouping
import StopMotion.Proofs.Syntax.Precedence.Climb
import StopMotion.Proofs.Syntax.Conditional
import StopMotion.Proofs.Syntax.Rejection.Token
import StopMotion.Proofs.Syntax.Rejection.Step
import StopMotion.Proofs.Syntax.Rejection.Function
import StopMotion.Proofs.Syntax.Rejection.Jsx
import StopMotion.Proofs.Syntax.Rejection.Expression
import StopMotion.Proofs.Syntax.Rejection.Statement
import StopMotion.Proofs.Text.Selection
import StopMotion.Proofs.Text.Rendering
import StopMotion.Proofs.Project.Convergence
import StopMotion.Proofs.Project.Conduct
import StopMotion.Proofs.Project.Exclusion
import StopMotion.Proofs.Artifact
import StopMotion.Proofs.Text.LineIndex
import StopMotion.Proofs.Text.Splitting
import StopMotion.Proofs.Checker.Output
import StopMotion.Proofs.Render
import StopMotion.Proofs.Syntax.Succession
