import DeskCalculator.EvalError
import DeskCalculator.Literal
import DeskCalculator.Operation

/-!
An infix text read as tokens, from the left and each as long as possible. A sign belongs to
the number after it where an operand is due, that is at the start and after an operator; an
exponent belongs to its number only when it is complete. The first lexeme that is neither an
operator nor a number is the error.
-/

namespace DeskCalculator

inductive Token (α : Type) where
  | number (x : α)
  | operator (op : Operation)
deriving DecidableEq

def Token.isOperator {α : Type} : Token α → Bool
  | number _ => false
  | operator _ => true

def isMantissaChar (c : Char) : Bool := c.isDigit || c == '.'

/-- The complete exponent at the head of the text, if there is one, and the text after it. -/
def splitExponent : Text → Text × Text
  | [] => ([], [])
  | mark :: rest =>
    let (sign, unsigned) := splitSign rest
    let digits := unsigned.takeWhile Char.isDigit
    if isExponentMark mark && !digits.isEmpty then
      (mark :: (sign ++ digits), unsigned.dropWhile Char.isDigit)
    else ([], mark :: rest)

/-- The lexeme of a number that starts with `first`, and the text after it. -/
def splitNumber (first : Char) (rest : Text) : Text × Text :=
  let (exponent, after) := splitExponent (rest.dropWhile isMantissaChar)
  (first :: (rest.takeWhile isMantissaChar ++ exponent), after)

def startsNumber (operandDue : Bool) (first : Char) (rest : Text) : Bool :=
  isMantissaChar first ||
    (operandDue && isSign first && rest.head?.any isMantissaChar)

theorem splitExponent_append (text : Text) :
    (splitExponent text).1 ++ (splitExponent text).2 = text := by
  cases text with
  | nil => rfl
  | cons mark rest =>
      simp only [splitExponent]
      split
      · simp [List.takeWhile_append_dropWhile, splitSign_append]
      · rfl

theorem splitNumber_append (first : Char) (rest : Text) :
    (splitNumber first rest).1 ++ (splitNumber first rest).2 = first :: rest := by
  simp [splitNumber, splitExponent_append, List.takeWhile_append_dropWhile]

theorem splitNumber_length_le (first : Char) (rest : Text) :
    (splitNumber first rest).2.length ≤ rest.length := by
  have parts := congrArg List.length (splitNumber_append first rest)
  simp [splitNumber] at parts ⊢
  omega

/-- The tokens of the text, given whether an operand is due at its head. -/
def tokensFrom (operandDue : Bool) : Text → Except EvalError (List (Token Double))
  | [] => .ok []
  | c :: rest =>
    if isBlank c then tokensFrom operandDue rest
    else if startsNumber operandDue c rest then
      match Decimal.ofText? (splitNumber c rest).1 with
      | none => .error (.malformedNumber (splitNumber c rest).1)
      | some d => (.number d.nearest :: ·) <$> tokensFrom false (splitNumber c rest).2
    else
      match Operation.ofSymbol? c with
      | none => .error (.unexpectedChar c)
      | some op => (.operator op :: ·) <$> tokensFrom true rest
termination_by text => text.length
decreasing_by
  all_goals have shorter := splitNumber_length_le c rest
  all_goals simp only [List.length_cons]
  all_goals omega

def tokens (text : Text) : Except EvalError (List (Token Double)) := tokensFrom true text

end DeskCalculator
