/-!
Rounding of exact rationals. A grid is the set of multiples of `base ^ place`; rounding to
it takes the nearest multiple and, of two equally near, the even one. The place is found
from the leading exponent of the value, so one function serves binary significands and
decimal digits alike.
-/

namespace DeskCalculator

def halfEven (q : Rat) : Int :=
  let below := q.floor
  let excess := q - below
  if excess < 1 / 2 then below
  else if 1 / 2 < excess then below + 1
  else if below % 2 = 0 then below
  else below + 1

def nearestMultiple (base : Nat) (place : Int) (q : Rat) : Int :=
  halfEven (q / (base : Rat) ^ place)

/--
The leading digit of `n` and its exponent. Squaring the base halves the exponent, so the
depth is the logarithm of the exponent; `fuel` is a bound on that depth.
-/
def leadingDigit (base n : Nat) : Nat → Nat × Nat
  | 0 => (n, 0)
  | fuel + 1 =>
    if n < base then (n, 0)
    else
      let (digits, exponent) := leadingDigit (base * base) n fuel
      if digits < base then (digits, 2 * exponent)
      else (digits / base, 2 * exponent + 1)

def natExponent (base n : Nat) : Nat :=
  (leadingDigit base n n.log2).2

/--
The exponent of the leading digit of a positive rational. Numerator and denominator fix it
up to one, and a comparison decides.
-/
def leadingExponent (base : Nat) (q : Rat) : Int :=
  let guess : Int := natExponent base q.num.natAbs - natExponent base q.den
  if (base : Rat) ^ guess ≤ q then guess else guess - 1

end DeskCalculator
