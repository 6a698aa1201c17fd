import FormulaField.Editor.Basic
import FormulaField.Editor.Clock
import FormulaField.Proofs.Acceptance
import FormulaField.Proofs.Coverage
import FormulaField.Proofs.Scan
import FormulaField.Proofs.Parse
import FormulaField.Proofs.NaN
import FormulaField.Proofs.NumberText
import FormulaField.Proofs.NumberToken
import FormulaField.Proofs.SyntaxError
import FormulaField.Proofs.TypedNumber
import FormulaField.Proofs.TypedTokens
import FormulaField.Proofs.Faces
import FormulaField.Proofs.Run
import FormulaField.Proofs.Expression
import FormulaField.Proofs.CommittedNumber
import FormulaField.Proofs.SuggestionRun
import FormulaField.Proofs.Delivery
import FormulaField.Proofs.FieldRun
import FormulaField.Proofs.Display
import FormulaField.Proofs.Provenance
import FormulaField.Proofs.TagIdentity
import FormulaField.Proofs.TypedLine
import FormulaField.Proofs.Notices
import FormulaField.Proofs.Rounding
import FormulaField.Proofs.FloatOrder
import FormulaField.Proofs.FloatDifference
import FormulaField.Proofs.Freshness
import FormulaField.Proofs.Counters
import FormulaField.Proofs.Subscribers
import FormulaField.Proofs.Noninterference
import FormulaField.Proofs.Ledger
import FormulaField.Proofs.LateAnswer
import FormulaField.Proofs.Places
import FormulaField.Proofs.Tiling
import FormulaField.Proofs.Values
import FormulaField.Proofs.Wrapping
import FormulaField.Proofs.Exactness
import FormulaField.Proofs.Readback
import FormulaField.Proofs.Grouped
import FormulaField.Proofs.NumberGrammar
import FormulaField.Proofs.Lexeme
import FormulaField.Proofs.Spacing
import FormulaField.Proofs.ValueText
import FormulaField.Proofs.TypedGrammar
import FormulaField.Proofs.TagRemoval
import FormulaField.Proofs.MissingValues
import FormulaField.Proofs.TagHistory
import FormulaField.Proofs.FloatCount
import FormulaField.Proofs.NearestValue
import FormulaField.Proofs.RadixRounding
