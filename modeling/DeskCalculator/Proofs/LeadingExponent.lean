import DeskCalculator.Rounding
import Mathlib.Data.Rat.Floor
import Mathlib.Tactic.Linarith
import Mathlib.Tactic.NormNum.Pow

/-!
The leading exponent of a value is the power of the base that the value has reached but not
exceeded. Squaring the base finds it for a natural number, numerator and denominator fix it
up to one for a rational, and a power that brackets the value is the only one that does.
-/

namespace DeskCalculator

theorem squared_pow (base exponent : Nat) :
    (base * base) ^ exponent = base ^ (2 * exponent) := by
  rw [← Nat.pow_two, ← Nat.pow_mul]

-- The induction follows the squaring: the digits over the squared base are split once more
-- unless they are a single digit of the base itself.
theorem leadingDigit_bounds (fuel base n : Nat) (large : 2 ≤ base) (positive : 1 ≤ n)
    (enough : n < base ^ 2 ^ fuel) :
    (leadingDigit base n fuel).1 = n / base ^ (leadingDigit base n fuel).2 ∧
      base ^ (leadingDigit base n fuel).2 ≤ n ∧
      n < base ^ ((leadingDigit base n fuel).2 + 1) := by
  induction fuel generalizing base with
  | zero =>
      have small : n < base := by simpa using enough
      simpa [leadingDigit, small] using positive
  | succ fuel ih =>
      by_cases small : n < base
      · simpa [leadingDigit, small] using positive
      · have squared : n < (base * base) ^ 2 ^ fuel := by
          rw [squared_pow, ← Nat.pow_succ']
          exact enough
        have larger : 2 ≤ base * base := by nlinarith
        rcases ih (base * base) larger squared with ⟨digits, below, above⟩
        have power : 0 < base ^ (2 * (leadingDigit (base * base) n fuel).2) :=
          Nat.pow_pos (by omega)
        rw [squared_pow] at digits below above
        by_cases single : (leadingDigit (base * base) n fuel).1 < base
        · have step : leadingDigit base n (fuel + 1) =
              ((leadingDigit (base * base) n fuel).1,
                2 * (leadingDigit (base * base) n fuel).2) := by
            simp [leadingDigit, small, single]
          rw [step]
          refine ⟨digits, below, ?_⟩
          rw [digits, Nat.div_lt_iff_lt_mul power] at single
          rw [Nat.pow_succ']
          exact single
        · have step : leadingDigit base n (fuel + 1) =
              ((leadingDigit (base * base) n fuel).1 / base,
                2 * (leadingDigit (base * base) n fuel).2 + 1) := by
            simp [leadingDigit, small, single]
          rw [step]
          rw [Nat.not_lt, digits, Nat.le_div_iff_mul_le power, ← Nat.pow_succ'] at single
          refine ⟨?_, single, above⟩
          rw [digits, Nat.div_div_eq_div_mul, ← Nat.pow_succ]

theorem natExponent_bounds (base n : Nat) (large : 2 ≤ base) (positive : 1 ≤ n) :
    base ^ natExponent base n ≤ n ∧ n < base ^ (natExponent base n + 1) := by
  have enough : n < base ^ 2 ^ n.log2 := by
    have exponent : n.log2 + 1 ≤ 2 ^ n.log2 := Nat.lt_two_pow_self
    calc
      n < 2 ^ (n.log2 + 1) := Nat.lt_log2_self
      _ ≤ base ^ (n.log2 + 1) := Nat.pow_le_pow_left large _
      _ ≤ base ^ 2 ^ n.log2 := Nat.pow_le_pow_right (by omega) exponent
  exact (leadingDigit_bounds n.log2 base n large positive enough).2

theorem natExponent_bounds_rat (base n : Nat) (large : 2 ≤ base) (positive : 1 ≤ n) :
    (base : Rat) ^ (natExponent base n : Int) ≤ n ∧
      (n : Rat) < (base : Rat) ^ ((natExponent base n : Int) + 1) := by
  have bounds := natExponent_bounds base n large positive
  constructor
  · exact_mod_cast bounds.1
  · exact_mod_cast bounds.2

theorem quotient_bounds (base a b : Rat) (high low : Int) (basePositive : 0 < base)
    (bPositive : 0 < b) (aBounds : base ^ high ≤ a ∧ a < base ^ (high + 1))
    (bBounds : base ^ low ≤ b ∧ b < base ^ (low + 1)) :
    base ^ (high - low - 1) ≤ a / b ∧ a / b < base ^ (high - low + 1) := by
  constructor
  · rw [le_div_iff₀ bPositive]
    calc
      base ^ (high - low - 1) * b ≤ base ^ (high - low - 1) * base ^ (low + 1) :=
        mul_le_mul_of_nonneg_left bBounds.2.le (zpow_pos basePositive _).le
      _ = base ^ high := by
        rw [← zpow_add₀ basePositive.ne']
        congr 1
        ring
      _ ≤ a := aBounds.1
  · rw [div_lt_iff₀ bPositive]
    calc
      a < base ^ (high + 1) := aBounds.2
      _ = base ^ (high - low + 1) * base ^ low := by
        rw [← zpow_add₀ basePositive.ne']
        congr 1
        ring
      _ ≤ base ^ (high - low + 1) * b :=
        mul_le_mul_of_nonneg_left bBounds.1 (zpow_pos basePositive _).le

/-- The value lies between the power of its leading exponent and the next one. -/
theorem leadingExponent_bounds (base : Nat) (q : Rat) (large : 2 ≤ base) (positive : 0 < q) :
    (base : Rat) ^ leadingExponent base q ≤ q ∧
      q < (base : Rat) ^ (leadingExponent base q + 1) := by
  have basePositive : (0 : Rat) < base := by exact_mod_cast (by omega : 0 < base)
  have numPositive : 0 < q.num := Rat.num_pos.mpr positive
  have quotient : (q.num.natAbs : Rat) / q.den = q := by
    have numAbs : ((q.num.natAbs : Int) : Rat) = q.num := by
      rw [Int.natAbs_of_nonneg numPositive.le]
    rw [← Int.cast_natCast, numAbs, Rat.num_div_den]
  have bounds := quotient_bounds base q.num.natAbs q.den (natExponent base q.num.natAbs)
    (natExponent base q.den) basePositive (by exact_mod_cast q.den_pos)
    (natExponent_bounds_rat base q.num.natAbs large (by omega))
    (natExponent_bounds_rat base q.den large q.den_pos)
  rw [quotient] at bounds
  simp only [leadingExponent]
  split
  · rename_i reached
    exact ⟨reached, bounds.2⟩
  · rename_i missed
    rw [sub_add_cancel]
    exact ⟨bounds.1, not_le.mp missed⟩

theorem leadingExponent_le_iff (base : Nat) (q : Rat) (large : 2 ≤ base) (positive : 0 < q)
    (exponent : Int) : exponent ≤ leadingExponent base q ↔ (base : Rat) ^ exponent ≤ q := by
  have one : (1 : Rat) < base := by exact_mod_cast (by omega : 1 < base)
  have bounds := leadingExponent_bounds base q large positive
  constructor
  · intro below
    exact (zpow_le_zpow_right₀ one.le below).trans bounds.1
  · intro reached
    have between := (zpow_lt_zpow_iff_right₀ one).mp (reached.trans_lt bounds.2)
    omega

end DeskCalculator
