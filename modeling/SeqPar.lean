import SeqPar.Check
import SeqPar.CommandLine
import SeqPar.Conversion
import SeqPar.Fault
import SeqPar.Layout
import SeqPar.Machine.Basic
import SeqPar.Machine.Builtin
import SeqPar.Machine.Eval
import SeqPar.Machine.Network
import SeqPar.Machine.Run
import SeqPar.Main
import SeqPar.Node.Basic
import SeqPar.Node.Render
import SeqPar.Number.Binary
import SeqPar.Number.Power
import SeqPar.Number.Reading
import SeqPar.Number.Shortest
import SeqPar.Number.Written
import SeqPar.Options
import SeqPar.Parse.Cursor
import SeqPar.Parse.Grammar
import SeqPar.Parse.Phrase
import SeqPar.Showcase.Detect
import SeqPar.Showcase.Programs
import SeqPar.Table
import SeqPar.Text.Blank
import SeqPar.Text.Digit
import SeqPar.Text.Letter
import SeqPar.Text.Numeral
import SeqPar.Text.Parts
import SeqPar.Text.Printable
import SeqPar.Text.Quoted
import SeqPar.Text.Ranges
import SeqPar.Token.Basic
import SeqPar.Token.Lexeme
import SeqPar.Token.Scan
import SeqPar.Value.Arith
import SeqPar.Value.Functions
import SeqPar.Value.Order
import SeqPar.Proofs.Passing
import SeqPar.Proofs.ReadExpr
import SeqPar.Proofs.ReadStmt
import SeqPar.Proofs.NestedBlocks
import SeqPar.Proofs.ScopeFree
import SeqPar.Proofs.Simulation
import SeqPar.Proofs.ScopeChain
import SeqPar.Proofs.CallByValue
import SeqPar.Proofs.HiddenCaller
import SeqPar.Proofs.ReturnPath
import SeqPar.Proofs.CallerFrame
import SeqPar.Proofs.Boundaries
import SeqPar.Proofs.Phrases
import SeqPar.Proofs.FunctionLayout
import SeqPar.Proofs.Strokes
import SeqPar.Proofs.Recognition
import SeqPar.Proofs.Relexing
import SeqPar.Proofs.WholeWords
import SeqPar.Proofs.ExprProgress
import SeqPar.Proofs.StmtProgress
import SeqPar.Proofs.Turns
import SeqPar.Proofs.Rejection
import SeqPar.Proofs.Exposure
import SeqPar.Proofs.Ranked
import SeqPar.Proofs.ReadTrees
import SeqPar.Proofs.Acceptance
import SeqPar.Proofs.TopLevel
import SeqPar.Proofs.TruthValues
import SeqPar.Proofs.SortingProgram
import SeqPar.Proofs.Channels
import SeqPar.Proofs.Literals
import SeqPar.Proofs.Bracing
import SeqPar.Proofs.Enclosing
import SeqPar.Proofs.QuotedLayout
import SeqPar.Proofs.Doubles
import SeqPar.Proofs.Slashes
import SeqPar.Proofs.Sequences
import SeqPar.Proofs.ConditionChains
import SeqPar.Proofs.WholeTexts
import SeqPar.Proofs.NumericReadings
import SeqPar.Proofs.SignedLiterals
import SeqPar.Proofs.UnboundedLoop
import SeqPar.Proofs.ZeroTexts
import SeqPar.Proofs.Branching
import SeqPar.Proofs.Initialisation
import SeqPar.Proofs.FailedAssignment
import SeqPar.Proofs.SortedTriples
import SeqPar.Proofs.LiteralOutput
import SeqPar.Proofs.WholeExpressions
import SeqPar.Proofs.ExactOrder
import SeqPar.Proofs.MirroredComparisons
import SeqPar.Proofs.ScopeHistory
import SeqPar.Proofs.SourceLines
import SeqPar.Proofs.Detection
import SeqPar.Proofs.TextTransfer
import SeqPar.Proofs.Coverage
import SeqPar.Proofs.VisibleTags
