import DeskCalculator.EvalError
import DeskCalculator.Notation

/-!
Results as they are shown. A result is rounded to fifteen significant digits, which hides the
rounding of the arithmetic, and written by the shortest digits that read back. An integer
that the format holds with all its neighbours is exact as it stands and is not rounded.
-/

namespace DeskCalculator

variable {f : BinaryFormat}

def shownDigits : Nat := 15

namespace FiniteNumber

def isExactInteger (x : FiniteNumber f) : Bool :=
  x.magnitude.isInt && decide (x.magnitude ≤ 2 * f.binade)

/-- The value that is shown for `x`. Where the rounded decimal is past the greatest value,
`x` itself is. -/
def rounded (x : FiniteNumber f) : FiniteNumber f :=
  if x.isExactInteger then x
  else
    match (Decimal.significant shownDigits x.negative x.magnitude).nearest with
    | Number.finite y => y
    | _ => x

def toDecimal (x : FiniteNumber f) : Decimal :=
  if x.isZero then ⟨x.negative, 0, 0⟩ else .shortest x

end FiniteNumber

def display : Number f → Except EvalError Text
  | .finite x => .ok x.rounded.toDecimal.text
  | _ => .error .notFinite

end DeskCalculator
