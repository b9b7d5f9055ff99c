import JsonQuery.Expr.Listing
import JsonQuery.Main
import JsonQuery.Number.Read
import JsonQuery.Parse.Descent
import JsonQuery.Proofs.Calendar.Agreement
import JsonQuery.Proofs.Calendar.Format
import JsonQuery.Proofs.Calendar.Order
import JsonQuery.Proofs.Evaluation.Filtering
import JsonQuery.Proofs.Evaluation.Indexing
import JsonQuery.Proofs.Evaluation.Slicing
import JsonQuery.Proofs.Evaluation.Strictness
import JsonQuery.Proofs.Expr.Listing
import JsonQuery.Proofs.Interpretation.Names
import JsonQuery.Proofs.Interpretation.Places
import JsonQuery.Proofs.Interpretation.Rows
import JsonQuery.Proofs.Interpretation.Visit
import JsonQuery.Proofs.Json.Content
import JsonQuery.Proofs.Json.Document
import JsonQuery.Proofs.Json.Numeral
import JsonQuery.Proofs.Json.Reading
import JsonQuery.Proofs.Number.Code
import JsonQuery.Proofs.Number.IntegerPart
import JsonQuery.Proofs.Number.Interchange
import JsonQuery.Proofs.Number.Nearest
import JsonQuery.Proofs.Number.Positional
import JsonQuery.Proofs.Number.Shortest
import JsonQuery.Proofs.Outcome
import JsonQuery.Proofs.Parse.Acceptance
import JsonQuery.Proofs.Parse.Arena
import JsonQuery.Proofs.Parse.Bounds
import JsonQuery.Proofs.Parse.Cap
import JsonQuery.Proofs.Parse.Chain
import JsonQuery.Proofs.Parse.Completion
import JsonQuery.Proofs.Parse.Complexity
import JsonQuery.Proofs.Parse.Context
import JsonQuery.Proofs.Parse.Descent
import JsonQuery.Proofs.Parse.Grammar
import JsonQuery.Proofs.Parse.Metering
import JsonQuery.Proofs.Parse.Numeral
import JsonQuery.Proofs.Parse.Observation
import JsonQuery.Proofs.Parse.Placement
import JsonQuery.Proofs.Parse.Precedence
import JsonQuery.Proofs.Parse.Relocation
import JsonQuery.Proofs.Parse.Signs
import JsonQuery.Proofs.Parse.Spacing
import JsonQuery.Proofs.Parse.Steps
import JsonQuery.Proofs.Parse.Table
import JsonQuery.Proofs.Parse.Viability
import JsonQuery.Proofs.Report.Boundary
import JsonQuery.Proofs.Report.Drawing
import JsonQuery.Proofs.Report.Location
import JsonQuery.Proofs.Schema.Blurring
import JsonQuery.Proofs.Schema.Conformance
import JsonQuery.Proofs.Schema.Inclusion
import JsonQuery.Proofs.Text.Digits
import JsonQuery.Proofs.Text.Indentation
import JsonQuery.Proofs.Text.Trimming
import JsonQuery.Proofs.Token.Iteration
import JsonQuery.Proofs.Token.Pieces
import JsonQuery.Proofs.Token.Placement
import JsonQuery.Proofs.Token.Quotation
import JsonQuery.Proofs.Token.Scanning
import JsonQuery.Proofs.Token.Spelling
import JsonQuery.Proofs.Token.Tiling
import JsonQuery.Proofs.Typing.Blurring
import JsonQuery.Proofs.Typing.Concatenation
import JsonQuery.Proofs.Typing.Parts
import JsonQuery.Proofs.Typing.Rejection
import JsonQuery.Proofs.Typing.Soundness
import JsonQuery.Proofs.Value.Agreement
import JsonQuery.Proofs.Value.Equality
import JsonQuery.Proofs.Value.Indentation
import JsonQuery.Proofs.Value.Part
import JsonQuery.Proofs.Value.RoundTrip
import JsonQuery.Proofs.Value.Writer
