import PageCalc.Command.Request
import PageCalc.Command.Run
import PageCalc.Command.Switch
import PageCalc.Evaluation.Expression
import PageCalc.Evaluation.Progress
import PageCalc.Evaluation.Reading
import PageCalc.Evaluation.Result
import PageCalc.Evaluation.Workbook
import PageCalc.Formula.Cache
import PageCalc.Formula.Cursor
import PageCalc.Formula.Error
import PageCalc.Formula.Expr
import PageCalc.Formula.Lexer
import PageCalc.Formula.Parser
import PageCalc.Formula.Printer
import PageCalc.Formula.Reference
import PageCalc.Formula.Token
import PageCalc.Function.Aggregate
import PageCalc.Function.Basic
import PageCalc.Function.Choice
import PageCalc.Function.Library
import PageCalc.Function.Wording
import PageCalc.Graph.Cycle
import PageCalc.Graph.Dependency
import PageCalc.Graph.Search
import PageCalc.Grid.Address
import PageCalc.Grid.Error
import PageCalc.Grid.Input
import PageCalc.Grid.Range
import PageCalc.Grid.RawSheet
import PageCalc.Grid.Sheet
import PageCalc.Main
import PageCalc.Number.Binary
import PageCalc.Number.Count
import PageCalc.Number.Decimal
import PageCalc.Number.Shortest
import PageCalc.Page.Directory
import PageCalc.Page.Resolver
import PageCalc.Page.Shelf
import PageCalc.Page.Site
import PageCalc.Proofs.Collection
import PageCalc.Proofs.Evaluation.Aliases
import PageCalc.Proofs.Evaluation.Atlas
import PageCalc.Proofs.Evaluation.Branches
import PageCalc.Proofs.Evaluation.CallAgreement
import PageCalc.Proofs.Evaluation.CircularSoundness
import PageCalc.Proofs.Evaluation.Coercion
import PageCalc.Proofs.Evaluation.Confined
import PageCalc.Proofs.Evaluation.Congruence
import PageCalc.Proofs.Evaluation.Consistency
import PageCalc.Proofs.Evaluation.DepthLimit
import PageCalc.Proofs.Evaluation.Edits
import PageCalc.Proofs.Evaluation.EntryPoint
import PageCalc.Proofs.Evaluation.ExpressionReads
import PageCalc.Proofs.Evaluation.Extents
import PageCalc.Proofs.Evaluation.Failure
import PageCalc.Proofs.Evaluation.FinishedMeaning
import PageCalc.Proofs.Evaluation.Finiteness
import PageCalc.Proofs.Evaluation.Flattening
import PageCalc.Proofs.Evaluation.FormulaInCell
import PageCalc.Proofs.Evaluation.FormulaRewriting
import PageCalc.Proofs.Evaluation.FormulaSheets
import PageCalc.Proofs.Evaluation.FoundCycles
import PageCalc.Proofs.Evaluation.Loading
import PageCalc.Proofs.Evaluation.Machine
import PageCalc.Proofs.Evaluation.Meaning
import PageCalc.Proofs.Evaluation.Monotonicity
import PageCalc.Proofs.Evaluation.OtherMonads
import PageCalc.Proofs.Evaluation.PageSteps
import PageCalc.Proofs.Evaluation.Pages
import PageCalc.Proofs.Evaluation.Postorder
import PageCalc.Proofs.Evaluation.Precedents
import PageCalc.Proofs.Evaluation.Propagation
import PageCalc.Proofs.Evaluation.Provenance
import PageCalc.Proofs.Evaluation.RangeInvariance
import PageCalc.Proofs.Evaluation.Refinement
import PageCalc.Proofs.Evaluation.Refusal
import PageCalc.Proofs.Evaluation.RootAnswers
import PageCalc.Proofs.Evaluation.Runs
import PageCalc.Proofs.Evaluation.Shelves
import PageCalc.Proofs.Evaluation.Simulation
import PageCalc.Proofs.Evaluation.SingleCell
import PageCalc.Proofs.Evaluation.StackIndex
import PageCalc.Proofs.Evaluation.Standalone
import PageCalc.Proofs.Evaluation.Strict
import PageCalc.Proofs.Evaluation.Substitution
import PageCalc.Proofs.Evaluation.Termination
import PageCalc.Proofs.Evaluation.Transfer
import PageCalc.Proofs.Evaluation.Transparency
import PageCalc.Proofs.Evaluation.ValueLaws
import PageCalc.Proofs.Formula.Acceptance
import PageCalc.Proofs.Formula.Calls
import PageCalc.Proofs.Formula.Counter
import PageCalc.Proofs.Formula.Cursor
import PageCalc.Proofs.Formula.Grammar
import PageCalc.Proofs.Formula.Height
import PageCalc.Proofs.Formula.Lossless
import PageCalc.Proofs.Formula.Occurrence
import PageCalc.Proofs.Formula.Rendering
import PageCalc.Proofs.Formula.Replacement
import PageCalc.Proofs.Formula.Scanned
import PageCalc.Proofs.Formula.Scanning
import PageCalc.Proofs.Formula.Shape
import PageCalc.Proofs.Formula.Spelling
import PageCalc.Proofs.Function.Filled
import PageCalc.Proofs.Function.Interchange
import PageCalc.Proofs.Function.Ordinary
import PageCalc.Proofs.Graph.Component
import PageCalc.Proofs.Graph.CycleSearch
import PageCalc.Proofs.Graph.Dependency
import PageCalc.Proofs.Graph.Gathering
import PageCalc.Proofs.Graph.History
import PageCalc.Proofs.Graph.LowLink
import PageCalc.Proofs.Graph.Refresh
import PageCalc.Proofs.Graph.Report
import PageCalc.Proofs.Graph.Walk
import PageCalc.Proofs.Graph.WorkStack
import PageCalc.Proofs.Grid.Address
import PageCalc.Proofs.Grid.Area
import PageCalc.Proofs.Grid.Counting
import PageCalc.Proofs.Grid.Editing
import PageCalc.Proofs.Grid.Typing
import PageCalc.Proofs.Number.Binary
import PageCalc.Proofs.Number.Finite
import PageCalc.Proofs.Number.Nearest
import PageCalc.Proofs.Number.Shown
import PageCalc.Proofs.Number.Text
import PageCalc.Proofs.Storage.Display
import PageCalc.Proofs.Storage.Form
import PageCalc.Proofs.Storage.History
import PageCalc.Proofs.Text.Cut
import PageCalc.Proofs.Value.Finished
import PageCalc.Proofs.Value.Finite
import PageCalc.Proofs.Value.Order
import PageCalc.Storage.Error
import PageCalc.Storage.Escape
import PageCalc.Storage.FileTree
import PageCalc.Storage.Form
import PageCalc.Storage.Path
import PageCalc.Text.Blank
import PageCalc.Text.Case
import PageCalc.Text.CaseTable
import PageCalc.Value.Basic
import PageCalc.Value.Error
import PageCalc.Value.Operation
