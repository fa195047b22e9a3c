import DeskCalculator.Decimal
import DeskCalculator.Text

/-!
The written form of a number: a sign or none, digits with at most one point and at least one
digit, and then, or not, an exponent of `e` or `E`, a sign or none and at least one digit.
Nothing else may stand in the text, so words such as `inf` and a lone point are no numbers.
-/

namespace DeskCalculator

def isSign (c : Char) : Bool := c == '+' || c == '-'

def isExponentMark (c : Char) : Bool := c == 'e' || c == 'E'

def splitSign : Text → Text × Text
  | [] => ([], [])
  | c :: rest => if isSign c then ([c], rest) else ([], c :: rest)

def digitsValue (digits : Text) : Nat := Nat.ofDigitChars 10 digits 0

/-- The value of a text that is an exponent as a whole; no text at all stands for zero. -/
def exponentValue? : Text → Option Int
  | [] => some 0
  | mark :: rest =>
    let (sign, digits) := splitSign rest
    if isExponentMark mark && !digits.isEmpty && digits.all Char.isDigit then
      some (if sign = ['-'] then -digitsValue digits else digitsValue digits)
    else none

/-- The text after its leading digits, cut at a point if one follows them: the digits behind
the point, and what is left. -/
def splitFraction : Text → Text × Text
  | [] => ([], [])
  | c :: rest =>
    if c = '.' then (rest.takeWhile Char.isDigit, rest.dropWhile Char.isDigit)
    else ([], c :: rest)

namespace Decimal

def ofText? (text : Text) : Option Decimal :=
  let (sign, unsigned) := splitSign text
  let whole := unsigned.takeWhile Char.isDigit
  let (fraction, rest) := splitFraction (unsigned.dropWhile Char.isDigit)
  if whole.isEmpty && fraction.isEmpty then none
  else (exponentValue? rest).map fun exponent =>
    ⟨sign = ['-'], digitsValue (whole ++ fraction), exponent - fraction.length⟩

end Decimal

theorem splitSign_append (text : Text) :
    (splitSign text).1 ++ (splitSign text).2 = text := by
  cases text with
  | nil => rfl
  | cons c rest => by_cases signed : isSign c <;> simp [splitSign, signed]

end DeskCalculator
