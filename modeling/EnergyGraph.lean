import EnergyGraph.Aggregator.Basic
import EnergyGraph.Aggregator.Replay
import EnergyGraph.Audit.Config
import EnergyGraph.Audit.Inputs
import EnergyGraph.Audit.Report
import EnergyGraph.Audit.Run
import EnergyGraph.Audit.Tree
import EnergyGraph.Audit.Verify
import EnergyGraph.CommandLine
import EnergyGraph.Component.Binding
import EnergyGraph.Component.Bounds
import EnergyGraph.Component.Usage
import EnergyGraph.Constant
import EnergyGraph.Data.Csv
import EnergyGraph.Data.Npy
import EnergyGraph.Data.Payload
import EnergyGraph.Data.Reader
import EnergyGraph.Data.Store
import EnergyGraph.Decimal.Binary
import EnergyGraph.Decimal.Compare
import EnergyGraph.Decimal.Exact
import EnergyGraph.Decimal.Reading
import EnergyGraph.Decimal.Rounding
import EnergyGraph.Decimal.Shortest
import EnergyGraph.Diagnostic
import EnergyGraph.Document.Basic
import EnergyGraph.Document.Fault
import EnergyGraph.Document.Load
import EnergyGraph.Document.Outline
import EnergyGraph.Document.Parser
import EnergyGraph.Energy.Assignment
import EnergyGraph.Energy.Evaluate
import EnergyGraph.Energy.Fault
import EnergyGraph.Energy.Options
import EnergyGraph.Expr.Eval
import EnergyGraph.Expr.Fault
import EnergyGraph.Expr.Formula
import EnergyGraph.Expr.Outline
import EnergyGraph.Expr.Parser
import EnergyGraph.Expr.Printer
import EnergyGraph.Expr.Syntax
import EnergyGraph.Expr.Token
import EnergyGraph.Files
import EnergyGraph.Findings
import EnergyGraph.Functions
import EnergyGraph.Graph.Basic
import EnergyGraph.Graph.Build
import EnergyGraph.Graph.Fault
import EnergyGraph.Graph.Outline
import EnergyGraph.Grid
import EnergyGraph.Interaction.Basic
import EnergyGraph.Interaction.Fault
import EnergyGraph.Interaction.Range
import EnergyGraph.Interaction.Resolve
import EnergyGraph.Json.Reader
import EnergyGraph.Json.Writer
import EnergyGraph.Main
import EnergyGraph.Parameters
import EnergyGraph.Scalar
import EnergyGraph.Sorting.Basic
import EnergyGraph.Sorting.Merge
import EnergyGraph.Sorting.Run
import EnergyGraph.Summation
import EnergyGraph.Tensor
import EnergyGraph.Text.Blank
import EnergyGraph.Text.Digit
import EnergyGraph.Text.Identifier
import EnergyGraph.Text.Letter
import EnergyGraph.Text.LowerCase
import EnergyGraph.Text.Printable
import EnergyGraph.Text.Quoted
import EnergyGraph.Text.Ranges
import EnergyGraph.Value
import EnergyGraph.Proofs.Assembly
import EnergyGraph.Proofs.Building
import EnergyGraph.Proofs.Completeness
import EnergyGraph.Proofs.Denotation
import EnergyGraph.Proofs.Doubles
import EnergyGraph.Proofs.Coverage
import EnergyGraph.Proofs.Enumeration
import EnergyGraph.Proofs.Shapes
import EnergyGraph.Proofs.Progress
import EnergyGraph.Proofs.Positions
import EnergyGraph.Proofs.Weights
import EnergyGraph.Proofs.Feasibility
import EnergyGraph.Proofs.Exact
import EnergyGraph.Proofs.Verification
import EnergyGraph.Proofs.PlainEnergy
import EnergyGraph.Proofs.Memoization
import EnergyGraph.Proofs.Modes
import EnergyGraph.Proofs.SingleFailures
import EnergyGraph.Proofs.StepFailures
import EnergyGraph.Proofs.ModeAgreement
import EnergyGraph.Proofs.BuildModes
import EnergyGraph.Proofs.CleanRuns
import EnergyGraph.Proofs.Steps
import EnergyGraph.Proofs.DoubleBits
import EnergyGraph.Proofs.Evaluating
import EnergyGraph.Proofs.Grammar
import EnergyGraph.Proofs.Nearest
import EnergyGraph.Proofs.ParseTrees
import EnergyGraph.Proofs.ParserModes
import EnergyGraph.Proofs.Parsing
import EnergyGraph.Proofs.Walking
import EnergyGraph.Proofs.Shortest
import EnergyGraph.Proofs.Numerals
import EnergyGraph.Proofs.Lexing
import EnergyGraph.Proofs.Legible
import EnergyGraph.Proofs.RoundTrip
import EnergyGraph.Proofs.Values
import EnergyGraph.Proofs.FiniteDoubles
import EnergyGraph.Proofs.Refusals
import EnergyGraph.Proofs.Overflow
import EnergyGraph.Proofs.Couplings
import EnergyGraph.Proofs.SilentReading
import EnergyGraph.Proofs.TermRefusals
import EnergyGraph.Proofs.ReadingRefusals
import EnergyGraph.Proofs.ConstantRefusals
import EnergyGraph.Proofs.ResolvingRefusals
import EnergyGraph.Proofs.MalformedInput
import EnergyGraph.Proofs.IndexShift
import EnergyGraph.Proofs.ShiftedEnergy
import EnergyGraph.Proofs.ExtendedReals
import EnergyGraph.Proofs.ReplayedAggregates
import EnergyGraph.Proofs.SelfVerification
import EnergyGraph.Proofs.Footprint
import EnergyGraph.Proofs.LexicalScope
import EnergyGraph.Proofs.Substitution
import EnergyGraph.Proofs.CollectionForms
import EnergyGraph.Proofs.IntegerArrays
import EnergyGraph.Proofs.IntegerTables
import EnergyGraph.Proofs.Deliveries
import EnergyGraph.Proofs.IntegerJson
import EnergyGraph.Proofs.Neighbours
import EnergyGraph.Proofs.NeighbourCounts
import EnergyGraph.Proofs.Extents
import EnergyGraph.Proofs.NumberOrder
import EnergyGraph.Proofs.IntegerDoubles
import EnergyGraph.Proofs.IntegerReadings
import EnergyGraph.Proofs.ParameterValues
import EnergyGraph.Proofs.OnlineLogSumExp
import EnergyGraph.Proofs.StreamedAggregates
import EnergyGraph.Proofs.RenamedSymbols
import EnergyGraph.Proofs.RenamedInteractions
import EnergyGraph.Proofs.RenamedComponents
import EnergyGraph.Proofs.ReducedTerms
import EnergyGraph.Proofs.TupleOrders
import EnergyGraph.Proofs.MovedReductions
import EnergyGraph.Proofs.ValueAtRisk
import EnergyGraph.Proofs.AuditCaps
import EnergyGraph.Proofs.NamedFailures
import EnergyGraph.Proofs.DeclaredNames
import EnergyGraph.Proofs.UsableNames
import EnergyGraph.Proofs.CollectedEntries
import EnergyGraph.Proofs.LazyStores
import EnergyGraph.Proofs.TokenPlaces
import EnergyGraph.Proofs.NodeTokens
import EnergyGraph.Proofs.NodeSpans
import EnergyGraph.Proofs.ParserSteps
import EnergyGraph.Proofs.LocatedMistakes
import EnergyGraph.Proofs.Dependencies
import EnergyGraph.Proofs.TupleCounts
import EnergyGraph.Proofs.Traversal
import EnergyGraph.Proofs.NumberGrammar
import EnergyGraph.Proofs.TokenCover
import EnergyGraph.Proofs.SourceOrder
