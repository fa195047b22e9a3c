import DeskCalculator.Text
import DeskCalculator.Rounding
import DeskCalculator.Binary
import DeskCalculator.Arithmetic
import DeskCalculator.Decimal
import DeskCalculator.Literal
import DeskCalculator.EvalError
import DeskCalculator.Operation
import DeskCalculator.Token
import DeskCalculator.Postfix
import DeskCalculator.Notation
import DeskCalculator.Display
import DeskCalculator.Evaluation
import DeskCalculator.Key
import DeskCalculator.Buffer
import DeskCalculator.Journal
import DeskCalculator.Fit
import DeskCalculator.Keypad
import DeskCalculator.Interface
import DeskCalculator.Proofs.ExpressionTree
import DeskCalculator.Proofs.PostfixForm
import DeskCalculator.Proofs.Precedence
import DeskCalculator.Proofs.GroupedTree
import DeskCalculator.Proofs.AcceptedText
import DeskCalculator.Proofs.LeadingExponent
import DeskCalculator.Proofs.NearestDecimal
import DeskCalculator.Proofs.Pieces
import DeskCalculator.Proofs.TypedExpression
import DeskCalculator.Proofs.ReachableBuffer
import DeskCalculator.Proofs.NearestMultiple
import DeskCalculator.Proofs.RankSpacing
import DeskCalculator.Proofs.NearestRank
import DeskCalculator.Proofs.NearestValue
import DeskCalculator.Proofs.ShortestDecimal
import DeskCalculator.Proofs.RoundedResult
import DeskCalculator.Proofs.FewDigits
import DeskCalculator.Proofs.RereadResult
import DeskCalculator.Proofs.IntegerText
import DeskCalculator.Proofs.KeptDigits
import DeskCalculator.Proofs.CorrectRounding
import DeskCalculator.Proofs.Lexemes
import DeskCalculator.Proofs.NumberReaders
import DeskCalculator.Proofs.Readings
import DeskCalculator.Proofs.FirstCulprit
import DeskCalculator.Proofs.DigitCount
import DeskCalculator.Proofs.ResultShape
import DeskCalculator.Proofs.BufferParts
import DeskCalculator.Proofs.InterfaceRuns
import DeskCalculator.Proofs.ScannedBuffer
import DeskCalculator.Proofs.KeyedOutcome
import DeskCalculator.Proofs.ExactRemainder
import DeskCalculator.Proofs.PercentSign
import DeskCalculator.Proofs.EditingKeys
import DeskCalculator.Proofs.OppositeResult
import DeskCalculator.Proofs.ResultOrder
import DeskCalculator.Proofs.ScannedPieces
import DeskCalculator.Proofs.TypedNumber
import DeskCalculator.Proofs.Backspace
import DeskCalculator.Proofs.FittingScale
import DeskCalculator.Proofs.JournalReplay
import DeskCalculator.Proofs.CurrentSegment
import DeskCalculator.Proofs.RoundingProjection
import DeskCalculator.Proofs.StackBounds
