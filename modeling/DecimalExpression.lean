import DecimalExpression.Json.Binding
import DecimalExpression.Json.Policy
import DecimalExpression.Proofs.Evaluation.Pipeline
import DecimalExpression.Proofs.Expression.Canonical
import DecimalExpression.Proofs.Syntax.Completeness
import DecimalExpression.Proofs.Syntax.Fidelity
import DecimalExpression.Proofs.Evaluation.Faults
import DecimalExpression.Proofs.Evaluation.Agreement
import DecimalExpression.Proofs.Evaluation.Trace
import DecimalExpression.Proofs.Evaluation.Influence
import DecimalExpression.Proofs.Evaluation.EqualForests
import DecimalExpression.Proofs.Evaluation.Typing
import DecimalExpression.Proofs.Evaluation.Exactness
import DecimalExpression.Proofs.Evaluation.EqualNumbers
import DecimalExpression.Proofs.Expression.Histories
import DecimalExpression.Proofs.Expression.Extent
import DecimalExpression.Proofs.Syntax.Recursion
import DecimalExpression.Proofs.Evaluation.Regrouping
import DecimalExpression.Proofs.Decimal.SignificantDigits
import DecimalExpression.Proofs.Decimal.Quotients
import DecimalExpression.Proofs.Decimal.ExactDivision
import DecimalExpression.Proofs.Decimal.ExactQuotients
import DecimalExpression.Proofs.Decimal.Overflow
import DecimalExpression.Proofs.Expression.MalformedTrees
import DecimalExpression.Proofs.Evaluation.Ranges
import DecimalExpression.Proofs.Expression.Leaves
import DecimalExpression.Proofs.Syntax.Quotes
import DecimalExpression.Proofs.Evaluation.NamedFaults
import DecimalExpression.Proofs.Syntax.TextLiterals
import DecimalExpression.Evaluation.BoundedSource
import DecimalExpression.Proofs.Evaluation.NumberLiterals
import DecimalExpression.Json.Sentence
import DecimalExpression.Json.Meaning
import DecimalExpression.Proofs.Evaluation.NegatedLiterals
import DecimalExpression.Proofs.Evaluation.Extrema
import DecimalExpression.Proofs.Evaluation.Comparisons
import DecimalExpression.Proofs.Json.Scalars
import DecimalExpression.Proofs.Json.Values
import DecimalExpression.Proofs.Json.Numbers
import DecimalExpression.Proofs.Json.Tables
import DecimalExpression.Proofs.Json.Strict
import DecimalExpression.Proofs.Json.ByteOrder
import DecimalExpression.Proofs.Json.Bindings
import DecimalExpression.Proofs.Json.NumberBindings
import DecimalExpression.Proofs.Decimal.Written
import DecimalExpression.Proofs.Json.Policies
import DecimalExpression.Proofs.Syntax.Stops
import DecimalExpression.Proofs.Evaluation.Rejections
import DecimalExpression.Proofs.Expression.Equality
import DecimalExpression.Proofs.Decimal.QuotientDigits
import DecimalExpression.Proofs.Syntax.OpenMarks
import DecimalExpression.Proofs.Evaluation.ReportedLiterals
import DecimalExpression.Evaluation.BoundedEvaluate
import DecimalExpression.Proofs.BoundedOutcomes
import DecimalExpression.Proofs.Decimal.BoundedDivision
import DecimalExpression.Proofs.Evaluation.BoundedExtrema
import DecimalExpression.Proofs.Decimal.Growth
import DecimalExpression.Proofs.Evaluation.ArithmeticSteps
import DecimalExpression.Proofs.Evaluation.BoundedRuns
import DecimalExpression.Proofs.Evaluation.TypedArithmetic
import DecimalExpression.Proofs.Evaluation.BoundedTyping
import DecimalExpression.Expression.CollapsePass
import DecimalExpression.Proofs.Expression.CollapsePass
