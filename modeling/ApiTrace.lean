import ApiTrace.CommandLine.Run
import ApiTrace.Concrete.Json
import ApiTrace.Main
import ApiTrace.Scope.Graph
import ApiTrace.Syntax.Session
import ApiTrace.Trace.Result
import ApiTrace.TraceMap.File
import ApiTrace.TraceMap.Outline
import ApiTrace.Proofs.Flow.DepthFirst
import ApiTrace.Proofs.Flow.Relation
import ApiTrace.Proofs.Scope.Variables
import ApiTrace.Proofs.Flow.Enumeration
import ApiTrace.Proofs.TraceMap.Walk
import ApiTrace.Proofs.Flow.Start
import ApiTrace.Proofs.Flow.Consistency
import ApiTrace.Proofs.Search.CycleSafety
import ApiTrace.Proofs.Scope.Descent
import ApiTrace.Proofs.Scope.Forms
import ApiTrace.Proofs.Scope.Constructs
import ApiTrace.Proofs.Scope.Blocks
import ApiTrace.Proofs.Reading.Rules
import ApiTrace.Proofs.Reading.Order
import ApiTrace.Proofs.Reading.Statements
import ApiTrace.Proofs.Reading.Expressions
import ApiTrace.Proofs.Reading.Programs
import ApiTrace.Proofs.Scope.Building
import ApiTrace.Proofs.Scope.Resolution
import ApiTrace.Proofs.Flow.AliasCycles
import ApiTrace.Proofs.Flow.Simulation
import ApiTrace.Proofs.Flow.RootIndependence
import ApiTrace.Proofs.Scope.Lexical
import ApiTrace.Proofs.Scope.Faithful
import ApiTrace.Proofs.Scope.FaithfulForms
import ApiTrace.Proofs.Scope.Chains
import ApiTrace.Proofs.Scope.Records
import ApiTrace.Proofs.Scope.Occurrences
import ApiTrace.Proofs.Scope.Built
import ApiTrace.Proofs.Scope.LexicalResolution
import ApiTrace.Proofs.Scope.Straying
import ApiTrace.Proofs.TraceMap.Copying
import ApiTrace.Proofs.TraceMap.Below
import ApiTrace.Proofs.Flow.Sharing
import ApiTrace.Proofs.Constant.Joining
import ApiTrace.Proofs.Flow.Monotonicity
import ApiTrace.Proofs.Reading.CommentedTrees
import ApiTrace.Proofs.Search.Interleaving
import ApiTrace.Proofs.CommandLine.Isolation
import ApiTrace.Proofs.Flow.Interop
import ApiTrace.Proofs.Scope.Acceptance
import ApiTrace.Proofs.Reading.Shape
import ApiTrace.Proofs.Reading.Scopes
import ApiTrace.Proofs.Number.Overflow
import ApiTrace.Proofs.Constant.Failure
import ApiTrace.Proofs.Flow.Stops
import ApiTrace.Proofs.Flow.Trips
import ApiTrace.Proofs.Flow.Joining
import ApiTrace.Proofs.Flow.LegacyMode
import ApiTrace.Proofs.Scope.Undeclared
import ApiTrace.TraceMap.Build
import ApiTrace.Proofs.TraceMap.Build
import ApiTrace.Proofs.Scope.Declarations
import ApiTrace.Proofs.TraceMap.Documents
import ApiTrace.Proofs.TraceMap.Validation
import ApiTrace.Proofs.TraceMap.Schema
import ApiTrace.Proofs.Json.Steps
import ApiTrace.Proofs.Json.Distinct
import ApiTrace.Proofs.TraceMap.DocumentOutlines
import ApiTrace.Proofs.Text.Utf8
import ApiTrace.Proofs.Text.Digits
import ApiTrace.Proofs.Reading.Escapes
import ApiTrace.Proofs.Reading.Templates
import ApiTrace.Proofs.Json.LongIntegers
import ApiTrace.Proofs.CommandLine.MapFiles
import ApiTrace.Proofs.Number.Exact
import ApiTrace.Proofs.Number.Nearest
import ApiTrace.Proofs.Number.IntegerLiterals
import ApiTrace.Proofs.Constant.Evaluation
import ApiTrace.Proofs.Constant.Soundness
import ApiTrace.Proofs.Reading.Sessions
import ApiTrace.Proofs.Reading.Lines
import ApiTrace.Proofs.Reading.ModuleClauses
import ApiTrace.Proofs.Scope.ReadOrder
import ApiTrace.Proofs.Reading.SourceOrder
import ApiTrace.Proofs.Reading.Nesting
import ApiTrace.Proofs.Reading.ReadOrder
