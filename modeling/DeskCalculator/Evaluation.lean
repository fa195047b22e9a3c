import DeskCalculator.Display
import DeskCalculator.Postfix

/-!
The result of a finished text. A text of two numbers around a percent sign is a remainder, a
number before a closing percent sign is a hundredth, and any other text is an infix
expression, in which a closing percent sign has no meaning and is dropped.
-/

namespace DeskCalculator

def arithmeticSymbol (c : Char) : Char :=
  if c = 'x' ∨ c = 'X' ∨ c = '×' then '*'
  else if c = '÷' then '/'
  else c

def normalize (text : Text) : Text := text.map arithmeticSymbol

/-- The finite number that the text writes, blanks around it aside. -/
def simpleNumber? (text : Text) : Option (FiniteNumber .double) :=
  (Decimal.ofText? (trim text)).bind fun d => d.nearest.toFinite?

def splitPercent? (text : Text) : Option (Text × Text) :=
  match text.dropWhile (· != '%') with
  | [] => none
  | _ :: after => some (text.takeWhile (· != '%'), after)

inductive Request where
  | remainder (x y : FiniteNumber .double)
  | hundredth (x : FiniteNumber .double)
  | expression (text : Text)
deriving DecidableEq

namespace Request

def remainder? (text : Text) : Option Request := do
  let (left, right) ← splitPercent? text
  return remainder (← simpleNumber? left) (← simpleNumber? right)

def hundredth? (text : Text) : Option Request :=
  if text.getLast? = some '%' then (simpleNumber? text.dropLast).map hundredth else none

def ofText (text : Text) : Request :=
  match remainder? text <|> hundredth? text with
  | some request => request
  | none => expression (if text.getLast? = some '%' then text.dropLast else text)

end Request

/-- The value of an infix expression, which may be infinite or no number at all. -/
def expressionValue (text : Text) : Except EvalError Double := do
  Postfix.reduce Operation.apply (← Postfix.ofInfix (← tokens text))

def Request.value : Request → Except EvalError Double
  | remainder x y => .ok (x.remainder y)
  | hundredth x => .ok (.finite x / .ofRat false 100)
  | expression text => expressionValue text

def evaluate (text : Text) : Except EvalError Text :=
  if text.all isBlank then .error .empty
  else do display (← (Request.ofText (normalize text)).value)

end DeskCalculator
