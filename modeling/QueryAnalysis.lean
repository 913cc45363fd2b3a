import QueryAnalysis.Columns
import QueryAnalysis.Number.Double
import QueryAnalysis.Number.Decimal
import QueryAnalysis.Literal
import QueryAnalysis.Scalar
import QueryAnalysis.Schema
import QueryAnalysis.Plan
import QueryAnalysis.Range.Predicate
import QueryAnalysis.Metadata.Provider
import QueryAnalysis.Metadata.UniqueKeys
import QueryAnalysis.Metadata.ColumnUniqueness
import QueryAnalysis.Json.Reader
import QueryAnalysis.Json.Writer
import QueryAnalysis.Scalar.Json
import QueryAnalysis.Settings.Document
import QueryAnalysis.Metadata.Builtin
import QueryAnalysis.Metadata.Reply
import QueryAnalysis.Columns.Program
import QueryAnalysis.Columns.Cursor
import QueryAnalysis.Proofs.Metadata.Derivation
import QueryAnalysis.Proofs.Columns.Programs
import QueryAnalysis.Proofs.Columns.Iteration
import QueryAnalysis.Proofs.Rows.Keys
import QueryAnalysis.Proofs.Rows.Joins
import QueryAnalysis.Proofs.Metadata.Soundness
import QueryAnalysis.Proofs.Range.Order
import QueryAnalysis.Proofs.Range.Evaluation
import QueryAnalysis.Proofs.Range.Partition
import QueryAnalysis.Proofs.Range.Truth
import QueryAnalysis.Proofs.Range.Analysis
import QueryAnalysis.Proofs.Range.Nulls
import QueryAnalysis.Proofs.Metadata.Agreement
import QueryAnalysis.Proofs.Metadata.UnsoundRules
import QueryAnalysis.Proofs.Range.Binding
import QueryAnalysis.Proofs.Range.Parameters
import QueryAnalysis.Proofs.Metadata.Repetition
import QueryAnalysis.Proofs.Metadata.Limits
import QueryAnalysis.Proofs.Range.Exact
import QueryAnalysis.Proofs.Range.Invariance
import QueryAnalysis.Proofs.Range.Decided
import QueryAnalysis.Proofs.Metadata.Consultation
import QueryAnalysis.Proofs.Metadata.Registration
import QueryAnalysis.Proofs.Metadata.Questions
import QueryAnalysis.Proofs.Metadata.Failures
import QueryAnalysis.Proofs.Metadata.Flags
import QueryAnalysis.Proofs.Range.RoundedNumbers
import QueryAnalysis.Proofs.Metadata.Descent
import QueryAnalysis.Proofs.Metadata.Chains
import QueryAnalysis.Proofs.Metadata.Totality
import QueryAnalysis.Proofs.Range.Restatement
import QueryAnalysis.Proofs.Range.Denotation
import QueryAnalysis.Proofs.Range.OrderLaws
import QueryAnalysis.Proofs.Range.EndpointOrder
import QueryAnalysis.Proofs.Metadata.JoinChains
import QueryAnalysis.Proofs.Metadata.Widths
import QueryAnalysis.Proofs.Metadata.Projections
import QueryAnalysis.Proofs.Toml.Sections
import QueryAnalysis.Proofs.Settings.Saved
import QueryAnalysis.Proofs.Scalar.JsonForm
import QueryAnalysis.Proofs.Metadata.EquiJoins
