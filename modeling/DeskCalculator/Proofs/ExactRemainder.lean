import DeskCalculator.Arithmetic
import DeskCalculator.Proofs.KeptDigits
import Mathlib.Data.Rat.Floor

/-!
The remainder of two numbers is exact. Counted in least positive values it is a remainder of
naturals, below the divisor; it is a multiple of the gap behind the divisor unless it is the
dividend itself, so it has no more digits than the format holds. The quotient is never rounded
and may be as great as it likes.
-/

namespace DeskCalculator

/-- The integer part of a rational, which for a negative one is above it. -/
def truncated (q : Rat) : Int := if q < 0 then -(-q).floor else q.floor

theorem truncated_of_nonneg (q : Rat) (nonneg : 0 ≤ q) : truncated q = q.floor := by
  rw [truncated, if_neg (not_lt.mpr nonneg)]

theorem truncated_neg (q : Rat) : truncated (-q) = -truncated q := by
  rcases lt_trichotomy q 0 with negative | rfl | positive
  · rw [truncated_of_nonneg (-q) (by linarith), truncated, if_pos negative, neg_neg]
  · rfl
  · rw [truncated_of_nonneg q positive.le, truncated, if_pos (by linarith), neg_neg]

namespace BinaryFormat

variable (f : BinaryFormat)

theorem units_strictMono : StrictMono f.units := by
  apply strictMono_nat_of_lt_succ
  intro rank
  have grows := f.step_pos rank
  rw [units_succ]
  omega

theorem exists_units (place digits : Nat) (small : digits ≤ 2 * f.binade) :
    ∃ rank, f.units rank = digits * 2 ^ place := by
  induction place generalizing digits with
  | zero => exact ⟨_, f.units_place 0 digits small (Or.inl rfl)⟩
  | succ place ih =>
      by_cases full : f.binade ≤ digits
      · exact ⟨_, f.units_place (place + 1) digits small (Or.inr full)⟩
      · -- Too few digits for this place are twice as many in the place below.
        obtain ⟨rank, units⟩ := ih (2 * digits) (by omega)
        exact ⟨rank, by rw [units, Nat.pow_succ]; ring⟩

theorem units_pos (rank : Nat) (nonzero : rank ≠ 0) : 0 < f.units rank :=
  (Nat.zero_le _).trans_lt (f.units_strictMono (Nat.pos_of_ne_zero nonzero))

theorem step_dvd_units (low high : Nat) (ordered : low ≤ high) :
    f.step low ∣ f.units high := by
  have steps : f.step low ∣ f.step high := by
    rw [step_eq, step_eq]
    exact pow_dvd_pow 2 (Nat.sub_le_sub_right (Nat.div_le_div_right ordered) 1)
  rw [units_eq]
  exact steps.mul_left _

/-- What is left of one value after the whole multiples of another is a value. -/
theorem exists_units_mod (dividend divisor : Nat) (nonzero : divisor ≠ 0) :
    ∃ rank, f.units rank = f.units dividend % f.units divisor := by
  rcases lt_or_ge dividend divisor with less | ordered
  · exact ⟨dividend, (Nat.mod_eq_of_lt (f.units_strictMono less)).symm⟩
  · obtain ⟨steps, split⟩ := f.step_dvd_units divisor dividend ordered
    have present : 0 < f.significand divisor :=
      Nat.pos_of_mul_pos_right (f.units_eq divisor ▸ f.units_pos divisor nonzero)
    have shared : f.units dividend % f.units divisor =
        steps % f.significand divisor * f.step divisor := by
      rw [split, f.units_eq divisor, mul_comm (f.significand divisor), Nat.mul_mod_mul_left,
        mul_comm]
    rw [shared, step_eq]
    exact f.exists_units _ _ ((Nat.mod_lt steps present).trans (f.significand_lt divisor)).le

end BinaryFormat

namespace FiniteNumber

variable {f : BinaryFormat} (x y : FiniteNumber f)

theorem floor_magnitude_div : (x.magnitude / y.magnitude).floor =
    (f.units x.rank / f.units y.rank : Nat) := by
  have least := f.leastPositive_pos
  rw [magnitude, magnitude, BinaryFormat.magnitude, BinaryFormat.magnitude,
    mul_div_mul_right _ _ least.ne']
  exact Rat.floor_natCast_div_natCast _ _

theorem remainder_magnitude (nonzero : y.rank ≠ 0) :
    ∃ r : FiniteNumber f, x.remainder y = .finite r ∧ r.negative = x.negative ∧
      r.magnitude = x.magnitude - (x.magnitude / y.magnitude).floor * y.magnitude ∧
      r.magnitude < y.magnitude := by
  obtain ⟨rank, units⟩ := f.exists_units_mod x.rank y.rank nonzero
  have less : rank < y.rank := by
    rw [← f.units_strictMono.lt_iff_lt, units]
    exact Nat.mod_lt _ (f.units_pos y.rank nonzero)
  have left : f.magnitude rank =
      x.magnitude - (x.magnitude / y.magnitude).floor * y.magnitude := by
    have division := Nat.mod_add_div' (f.units x.rank) (f.units y.rank)
    have natural : (f.units x.rank : Rat) =
        (f.units rank : Rat) + (f.units x.rank / f.units y.rank : Nat) * f.units y.rank := by
      rw [units]
      exact_mod_cast division.symm
    rw [floor_magnitude_div, magnitude, magnitude, BinaryFormat.magnitude,
      BinaryFormat.magnitude, BinaryFormat.magnitude, natural, Int.cast_natCast]
    ring
  refine ⟨⟨x.negative, rank, less.trans y.bounded⟩, ?_, rfl, left, f.magnitude_strictMono less⟩
  have divides : ¬ y.isZero = true := by
    rw [isZero, decide_eq_true_eq]
    exact nonzero
  simp only [remainder, if_neg divides, ← left, Number.ofMagnitude, f.nearestRank_magnitude,
    less.trans y.bounded, ↓reduceDIte]

/-- The remainder is the dividend less the divisor as many times as the truncated quotient says,
which is a value of the format. -/
theorem remainder_toRat (nonzero : y.rank ≠ 0) :
    ∃ r : FiniteNumber f, x.remainder y = .finite r ∧ r.negative = x.negative ∧
      r.toRat = x.toRat - truncated (x.toRat / y.toRat) * y.toRat ∧ |r.toRat| < |y.toRat| := by
  obtain ⟨r, found, sign, left, less⟩ := x.remainder_magnitude y nonzero
  refine ⟨r, found, sign, ?_, by rwa [abs_toRat, abs_toRat]⟩
  have quotient := truncated_of_nonneg (x.magnitude / y.magnitude)
    (div_nonneg x.magnitude_nonneg y.magnitude_nonneg)
  rw [toRat, toRat, toRat, sign, left, ← quotient]
  cases x.negative <;> cases y.negative <;>
    simp only [Bool.false_eq_true, ↓reduceIte, neg_div, div_neg, truncated_neg] <;>
    push_cast <;> ring

end FiniteNumber

end DeskCalculator
