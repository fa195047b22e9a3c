import DeskCalculator.Operation
import DeskCalculator.Proofs.NearestDecimal
import DeskCalculator.Proofs.NearestValue

/-!
Every operation rounds once. Of two finite numbers it gives the number nearest to their exact
sum, difference, product or quotient, and the signs of the operands fix that of a zero.
-/

namespace DeskCalculator

variable {f : BinaryFormat}

theorem Number.ofRat_signed (negative : Bool) (q : Rat) (nonneg : 0 ≤ q) :
    ofRat negative (if negative then -q else q) = (ofMagnitude negative q : Number f) := by
  cases negative with
  | false => exact ofRat_of_nonneg q nonneg
  | true =>
      rcases nonneg.eq_or_lt with rfl | positive
      · simp [ofRat]
      · rw [if_pos rfl, ofRat, if_neg (neg_ne_zero.mpr positive.ne'), ratAbs_eq, abs_neg,
          abs_of_pos positive, decide_eq_true (neg_neg_iff_pos.mpr positive)]

namespace FiniteNumber

variable (x y : FiniteNumber f)

theorem mul_eq_ofRat : x.mul y = .ofRat (x.negative != y.negative) (x.toRat * y.toRat) := by
  rw [mul, ← Number.ofRat_signed _ _ (mul_nonneg x.magnitude_nonneg y.magnitude_nonneg), toRat,
    toRat]
  cases x.negative <;> cases y.negative <;> simp

theorem div_eq_ofRat (nonzero : y.toRat ≠ 0) :
    x.div y = .ofRat (x.negative != y.negative) (x.toRat / y.toRat) := by
  rw [div, if_neg (mt y.isZero_iff.mp (mt y.toRat_eq_zero_iff.mpr nonzero)),
    ← Number.ofRat_signed _ _ (div_nonneg x.magnitude_nonneg y.magnitude_nonneg), toRat, toRat]
  cases x.negative <;> cases y.negative <;> simp [neg_div, div_neg]

end FiniteNumber

namespace Operation

def exact : Operation → Rat → Rat → Rat
  | add, a, b => a + b
  | subtract, a, b => a - b
  | multiply, a, b => a * b
  | divide, a, b => a / b

/-- Whether a zero that two operands with these signs give is negative. -/
def negativeZero : Operation → Bool → Bool → Bool
  | add, a, b => a && b
  | subtract, a, b => a && !b
  | multiply, a, b => a != b
  | divide, a, b => a != b

theorem apply_isNearest (op : Operation) (x y : FiniteNumber f) (bits : 1 ≤ f.fractionBits)
    (divisor : op = divide → y.toRat ≠ 0) :
    (op.apply (.finite x) (.finite y)).IsNearest (op.negativeZero x.negative y.negative)
      (op.exact x.toRat y.toRat) := by
  rw [Number.isNearest_iff _ _ _ bits]
  cases op with
  | add => rfl
  | subtract =>
      change x.add y.neg = _
      rw [FiniteNumber.add, y.toRat_neg, ← sub_eq_add_neg]
      rfl
  | multiply => exact x.mul_eq_ofRat y
  | divide => exact x.div_eq_ofRat y (divisor rfl)

end Operation

end DeskCalculator
