import EnergyFormula.Calculation.Basic
import EnergyFormula.CommandLine.Arguments
import EnergyFormula.CommandLine.Configuration
import EnergyFormula.CommandLine.Run
import EnergyFormula.Conversion.Lifting
import EnergyFormula.Conversion.Lowering
import EnergyFormula.Distinct
import EnergyFormula.Document.Calculation
import EnergyFormula.Document.Expression
import EnergyFormula.Document.Formula
import EnergyFormula.Document.Identifier
import EnergyFormula.Document.Location
import EnergyFormula.Document.Record
import EnergyFormula.Document.Registry
import EnergyFormula.Document.Report
import EnergyFormula.Document.Series
import EnergyFormula.Document.Settings
import EnergyFormula.Evaluation.Alignment
import EnergyFormula.Evaluation.Error
import EnergyFormula.Evaluation.Expression
import EnergyFormula.Evaluation.Formula
import EnergyFormula.Evaluation.Grid
import EnergyFormula.Evaluation.Location
import EnergyFormula.Evaluation.Output
import EnergyFormula.Evaluation.Signal
import EnergyFormula.Evaluation.Workspace
import EnergyFormula.Expression.Basic
import EnergyFormula.Formula.Basic
import EnergyFormula.Identifier.Kind
import EnergyFormula.Identifier.Typed
import EnergyFormula.Identifier.Uuid
import EnergyFormula.Json.Basic
import EnergyFormula.Json.Numeral
import EnergyFormula.Json.Printer
import EnergyFormula.Json.Reader
import EnergyFormula.Location.Basic
import EnergyFormula.Location.Overlap
import EnergyFormula.Main
import EnergyFormula.Number.Magnitude
import EnergyFormula.Number.Rounding
import EnergyFormula.Number.Shortest
import EnergyFormula.Number.Text
import EnergyFormula.Proofs.Calculation.Batch
import EnergyFormula.Proofs.Conversion.Depth
import EnergyFormula.Proofs.Conversion.Domain
import EnergyFormula.Proofs.Conversion.Lifting
import EnergyFormula.Proofs.Conversion.Lowering
import EnergyFormula.Proofs.Conversion.Meaning
import EnergyFormula.Proofs.Conversion.RoundTrip
import EnergyFormula.Proofs.Conversion.Substitution
import EnergyFormula.Proofs.Conversion.Unchanged
import EnergyFormula.Proofs.Conversion.Unmerged
import EnergyFormula.Proofs.Document.Expression
import EnergyFormula.Proofs.Document.Formula
import EnergyFormula.Proofs.Document.Given
import EnergyFormula.Proofs.Document.Record
import EnergyFormula.Proofs.Document.RoundTrip
import EnergyFormula.Proofs.Document.Series
import EnergyFormula.Proofs.Evaluation.Additivity
import EnergyFormula.Proofs.Evaluation.Branches
import EnergyFormula.Proofs.Evaluation.Buckets
import EnergyFormula.Proofs.Evaluation.Coverage
import EnergyFormula.Proofs.Evaluation.Delivery
import EnergyFormula.Proofs.Evaluation.Failures
import EnergyFormula.Proofs.Evaluation.Finite
import EnergyFormula.Proofs.Evaluation.InForce
import EnergyFormula.Proofs.Evaluation.Instants
import EnergyFormula.Proofs.Evaluation.Losses
import EnergyFormula.Proofs.Evaluation.Narrowing
import EnergyFormula.Proofs.Evaluation.Overflow
import EnergyFormula.Proofs.Evaluation.Plain
import EnergyFormula.Proofs.Evaluation.Pointwise
import EnergyFormula.Proofs.Evaluation.Positions
import EnergyFormula.Proofs.Evaluation.Produced
import EnergyFormula.Proofs.Evaluation.Range
import EnergyFormula.Proofs.Evaluation.Reference
import EnergyFormula.Proofs.Evaluation.References
import EnergyFormula.Proofs.Evaluation.Selection
import EnergyFormula.Proofs.Evaluation.Shape
import EnergyFormula.Proofs.Evaluation.Signal
import EnergyFormula.Proofs.Evaluation.Weighing
import EnergyFormula.Proofs.Evaluation.Windows
import EnergyFormula.Proofs.Evaluation.Zeros
import EnergyFormula.Proofs.Expression.Part
import EnergyFormula.Proofs.Formula.Part
import EnergyFormula.Proofs.Identifier.Literal
import EnergyFormula.Proofs.Identifier.Parse
import EnergyFormula.Proofs.Identifier.Pattern
import EnergyFormula.Proofs.Identifier.Uuid
import EnergyFormula.Proofs.Json.Canonical
import EnergyFormula.Proofs.Location.Order
import EnergyFormula.Proofs.Location.Overlap
import EnergyFormula.Proofs.Location.Pairs
import EnergyFormula.Proofs.Location.Succession
import EnergyFormula.Proofs.Number.Decimal
import EnergyFormula.Proofs.Number.Error
import EnergyFormula.Proofs.Number.Exact
import EnergyFormula.Proofs.Number.Literal
import EnergyFormula.Proofs.Number.Nearest
import EnergyFormula.Proofs.Number.Operations
import EnergyFormula.Proofs.Number.Order
import EnergyFormula.Proofs.Number.Places
import EnergyFormula.Proofs.Number.Product
import EnergyFormula.Proofs.Number.ReadBack
import EnergyFormula.Proofs.Number.Rounding
import EnergyFormula.Proofs.Number.Share
import EnergyFormula.Proofs.Number.Shortest
import EnergyFormula.Proofs.Number.Size
import EnergyFormula.Proofs.Outcome
import EnergyFormula.Proofs.Registry.Log
import EnergyFormula.Proofs.Registry.Malformed
import EnergyFormula.Proofs.Registry.Race
import EnergyFormula.Proofs.Registry.Replay
import EnergyFormula.Proofs.Registry.Run
import EnergyFormula.Proofs.Rows
import EnergyFormula.Proofs.Series.Lookup
import EnergyFormula.Proofs.Series.Tiling
import EnergyFormula.Proofs.Text.Digits
import EnergyFormula.Proofs.Time.Calendar
import EnergyFormula.Proofs.Time.Duration
import EnergyFormula.Proofs.Time.Grammar
import EnergyFormula.Proofs.Time.Parts
import EnergyFormula.Proofs.Time.Relaxed
import EnergyFormula.Proofs.Time.Steps
import EnergyFormula.Proofs.Time.Text
import EnergyFormula.Proofs.Validation.Acceptance
import EnergyFormula.Proofs.Validation.Authored
import EnergyFormula.Proofs.Validation.Conflicts
import EnergyFormula.Proofs.Validation.Constants
import EnergyFormula.Proofs.Validation.Defects
import EnergyFormula.Proofs.Validation.Depth
import EnergyFormula.Proofs.Validation.Encoding
import EnergyFormula.Proofs.Validation.Places
import EnergyFormula.Proofs.Validation.Reading
import EnergyFormula.Proofs.Validation.Reordering
import EnergyFormula.Proofs.Validation.Report
import EnergyFormula.Proofs.Validation.Resubmission
import EnergyFormula.Proofs.Validation.Shares
import EnergyFormula.Registry.Basic
import EnergyFormula.Registry.Envelope
import EnergyFormula.Report
import EnergyFormula.Series.Basic
import EnergyFormula.Settings
import EnergyFormula.Table
import EnergyFormula.Text.Blank
import EnergyFormula.Text.DecimalDigit
import EnergyFormula.Text.Digits
import EnergyFormula.Text.HexDigit
import EnergyFormula.Time.Calendar
import EnergyFormula.Time.Instant
import EnergyFormula.Time.Period
import EnergyFormula.Time.Printer
import EnergyFormula.Time.Reader
import EnergyFormula.Time.Resolution
import EnergyFormula.Validation.Authored
import EnergyFormula.Validation.Checked
import EnergyFormula.Validation.Finding
import EnergyFormula.Validation.Formula
import EnergyFormula.Validation.Location
import EnergyFormula.Validation.Submission
