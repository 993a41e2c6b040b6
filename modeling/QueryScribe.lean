import QueryScribe.Command.Workspace
import QueryScribe.Main
import QueryScribe.Operator.Expression
import QueryScribe.Operator.Field
import QueryScribe.Proofs.Layout.Scan
import QueryScribe.Proofs.Layout.Nesting
import QueryScribe.Proofs.Layout.Whole
import QueryScribe.Proofs.Code.Tame
import QueryScribe.Proofs.Code.Builders
import QueryScribe.Proofs.Code.Queries
import QueryScribe.Proofs.Predicate.Truth
import QueryScribe.Proofs.Predicate.Grammar
import QueryScribe.Proofs.Predicate.Refusal
import QueryScribe.Proofs.Predicate.Names
import QueryScribe.Proofs.Double.Nearest
import QueryScribe.Proofs.Options.Packages
import QueryScribe.Proofs.Text.Separation
import QueryScribe.Proofs.Code.StringReading
import QueryScribe.Proofs.Double.Written
import QueryScribe.Proofs.Value.Alike
import QueryScribe.Proofs.Code.Legible
import QueryScribe.Proofs.Json.Numeral
import QueryScribe.Proofs.Json.Fold
import QueryScribe.Proofs.Json.Reading
import QueryScribe.Proofs.Bytes.RoundTrip
import QueryScribe.Proofs.Decimal128.RoundTrip
import QueryScribe.Proofs.Value.Quiet
import QueryScribe.Proofs.Json.Invariant
import QueryScribe.Proofs.Value.Stable
import QueryScribe.Proofs.Value.Surrogate
import QueryScribe.Proofs.Value.Decoded
import QueryScribe.Proofs.Value.RoundTrip
import QueryScribe.Proofs.Code.Quiet
import QueryScribe.Proofs.Query.Dispatch
import QueryScribe.Proofs.Layout.Lines
import QueryScribe.Proofs.Layout.Blocks
import QueryScribe.Proofs.Code.Standing
import QueryScribe.Proofs.Query.Concatenation
import QueryScribe.Proofs.Query.Fallback
import QueryScribe.Proofs.Json.Outside
import QueryScribe.Proofs.Command.Escapes
import QueryScribe.Proofs.Command.Reading
import QueryScribe.Proofs.Code.Shift
import QueryScribe.Proofs.Query.Nesting
import QueryScribe.Proofs.Json.Closings
import QueryScribe.Proofs.Json.OnePass
import QueryScribe.Proofs.Code.Template
import QueryScribe.Proofs.Query.Template
import QueryScribe.Proofs.Code.Cutting
import QueryScribe.Proofs.Expression.Operands
import QueryScribe.Proofs.Expression.Calls
import QueryScribe.Proofs.Expression.Leftover
import QueryScribe.Proofs.Value.Recognition
import QueryScribe.Proofs.Expression.Reordering
import QueryScribe.Proofs.Predicate.Flags
import QueryScribe.Proofs.Layout.Stable
import QueryScribe.Proofs.Layout.Lexing
import QueryScribe.Proofs.Layout.Unclosed
import QueryScribe.Proofs.Layout.Acceptance
import QueryScribe.Proofs.Layout.Indentation
import QueryScribe.Proofs.Layout.Ranges
import QueryScribe.Proofs.Layout.Alignment
import QueryScribe.Proofs.Query.Alignment
import QueryScribe.Proofs.Code.Opaque
import QueryScribe.Proofs.Json.Place
import QueryScribe.Proofs.Json.Keys
