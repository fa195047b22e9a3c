import DeskCalculator.Proofs.NearestMultiple
import Mathlib.Tactic.Positivity
import Mathlib.Tactic.GCongr

/-!
The spacing of a format. Between a rank and the next one the value grows by a gap that is
never less than the least positive value and, but for that, small against the value itself.
The midpoints of these gaps fix which rank a rational is rounded to, so that rounding keeps
the order, is exact on values and moves a rational by no more than half a gap.
-/

namespace DeskCalculator

namespace BinaryFormat

variable (f : BinaryFormat)

/-- How many least positive values lie between the value of a rank and the next one. -/
def step (rank : Nat) : Nat := 1 <<< (rank / f.binade - 1)

def significand (rank : Nat) : Nat :=
  if rank / f.binade = 0 then rank else rank % f.binade + f.binade

def gap (rank : Nat) : Rat := f.step rank * f.leastPositive

/-- The rational halfway to the next rank. -/
def midpoint (rank : Nat) : Rat := f.magnitude rank + f.gap rank / 2

theorem binade_pos : 0 < f.binade := by
  rw [binade_eq]
  exact Nat.two_pow_pos _

theorem step_eq (rank : Nat) : f.step rank = 2 ^ (rank / f.binade - 1) := by
  rw [step, Nat.one_shiftLeft]

theorem step_pos (rank : Nat) : 0 < f.step rank := by
  rw [step_eq]
  exact Nat.two_pow_pos _

theorem units_eq (rank : Nat) : f.units rank = f.significand rank * f.step rank := by
  rw [units, significand, step_eq]
  split
  · rename_i first
    have small : rank < f.binade := (Nat.div_eq_zero_iff_lt f.binade_pos).mp first
    rw [first, Nat.mod_eq_of_lt small]
    simp
  · rw [Nat.shiftLeft_eq]

theorem significand_lt (rank : Nat) : f.significand rank < 2 * f.binade := by
  have remainder := Nat.mod_lt rank f.binade_pos
  rw [significand]
  split
  · rename_i first
    have small : rank < f.binade := (Nat.div_eq_zero_iff_lt f.binade_pos).mp first
    omega
  · omega

/-- The rank of a significand in a place. A significand of two binades is the first one of
the next place. -/
theorem units_place (place digits : Nat) (small : digits ≤ 2 * f.binade)
    (large : place = 0 ∨ f.binade ≤ digits) :
    f.units (place * f.binade + digits) = digits * 2 ^ place := by
  have positive := f.binade_pos
  by_cases subnormal : digits < f.binade
  · have first : place = 0 := by omega
    subst first
    simp [units, Nat.div_eq_of_lt subnormal, Nat.mod_eq_of_lt subnormal]
  · by_cases carried : digits = 2 * f.binade
    · subst carried
      have quotient : (place * f.binade + 2 * f.binade) / f.binade = place + 2 := by
        rw [← Nat.add_mul, Nat.mul_div_cancel _ positive]
      have remainder : (place * f.binade + 2 * f.binade) % f.binade = 0 := by
        rw [← Nat.add_mul, Nat.mul_mod_left]
      rw [units, quotient, remainder, if_neg (by omega), Nat.shiftLeft_eq, Nat.zero_add,
        show place + 2 - 1 = place + 1 by omega, Nat.pow_succ]
      ring
    · obtain ⟨excess, rfl⟩ := Nat.exists_eq_add_of_le (Nat.not_lt.mp subnormal)
      have inside : excess < f.binade := by omega
      have split : place * f.binade + (f.binade + excess) =
          excess + (place + 1) * f.binade := by ring
      rw [units, split, Nat.add_mul_div_right _ _ positive, Nat.add_mul_mod_self_right,
        Nat.div_eq_of_lt inside, Nat.mod_eq_of_lt inside, if_neg (by omega),
        Nat.shiftLeft_eq, show 0 + (place + 1) - 1 = place by omega]
      ring

/-- Every rank is a significand in a place. -/
theorem rank_place (rank : Nat) :
    rank = (rank / f.binade - 1) * f.binade + f.significand rank ∧
      (rank / f.binade - 1 = 0 ∨ f.binade ≤ f.significand rank) := by
  have division := Nat.div_add_mod' rank f.binade
  rw [significand]
  split
  · rename_i first
    simp [first]
  · rename_i later
    obtain ⟨place, quotient⟩ := Nat.exists_eq_succ_of_ne_zero later
    rw [quotient, Nat.succ_mul] at division
    rw [quotient]
    exact ⟨by simp only [Nat.succ_sub_one]; omega, Or.inr (by omega)⟩

theorem units_succ (rank : Nat) : f.units (rank + 1) = f.units rank + f.step rank := by
  obtain ⟨split, large⟩ := f.rank_place rank
  have next := f.units_place (rank / f.binade - 1) (f.significand rank + 1)
    (f.significand_lt rank) (by omega)
  rw [← Nat.add_assoc, ← split] at next
  rw [next, units_eq, step_eq, Nat.add_mul, Nat.one_mul]

theorem step_place (place digits : Nat) (small : digits < 2 * f.binade)
    (large : place = 0 ∨ f.binade ≤ digits) : f.step (place * f.binade + digits) = 2 ^ place := by
  have here := f.units_place place digits small.le large
  have next := f.units_place place (digits + 1) small (by omega)
  rw [← Nat.add_assoc, units_succ, here, Nat.add_mul] at next
  omega

theorem gap_pos (rank : Nat) : 0 < f.gap rank :=
  mul_pos (by exact_mod_cast f.step_pos rank) f.leastPositive_pos

theorem gap_mono : Monotone f.gap := by
  intro low high ordered
  have steps : f.step low ≤ f.step high := by
    rw [step_eq, step_eq]
    exact Nat.pow_le_pow_right (by norm_num) (Nat.sub_le_sub_right (Nat.div_le_div_right ordered) 1)
  exact mul_le_mul_of_nonneg_right (by exact_mod_cast steps) f.leastPositive_pos.le

theorem leastPositive_le_gap (rank : Nat) : f.leastPositive ≤ f.gap rank := by
  have one : (1 : Rat) ≤ f.step rank := by exact_mod_cast f.step_pos rank
  rw [gap]
  nlinarith [f.leastPositive_pos]

/-- The gap behind a significand in a place is the unit of the place or more. -/
theorem unit_le_gap (place digits : Nat) (small : digits ≤ 2 * f.binade)
    (large : place = 0 ∨ f.binade ≤ digits) :
    2 ^ place * f.leastPositive ≤ f.gap (place * f.binade + digits) := by
  have wide : 2 ^ place ≤ f.step (place * f.binade + digits) := by
    rcases small.eq_or_lt with carried | inside
    · have split : place * f.binade + digits = (place + 1) * f.binade + f.binade := by
        rw [carried]
        ring
      rw [split, f.step_place (place + 1) f.binade (by linarith [f.binade_pos])
        (Or.inr le_rfl)]
      exact Nat.pow_le_pow_right (by norm_num) (by omega)
    · exact (f.step_place place digits inside large).ge
  rw [gap]
  exact mul_le_mul_of_nonneg_right (by exact_mod_cast wide) f.leastPositive_pos.le

theorem magnitude_eq (rank : Nat) :
    f.magnitude rank = f.significand rank * f.gap rank := by
  rw [magnitude, units_eq, gap]
  push_cast
  ring

theorem magnitude_zero : f.magnitude 0 = 0 := by
  simp [magnitude, units]

theorem magnitude_nonneg (rank : Nat) : 0 ≤ f.magnitude rank := by
  rw [magnitude_eq]
  exact mul_nonneg (Nat.cast_nonneg _) (f.gap_pos rank).le

theorem magnitude_succ (rank : Nat) :
    f.magnitude (rank + 1) = f.magnitude rank + f.gap rank := by
  rw [magnitude, magnitude, gap, units_succ]
  push_cast
  ring

theorem magnitude_strictMono : StrictMono f.magnitude := by
  apply strictMono_nat_of_lt_succ
  intro rank
  rw [magnitude_succ]
  linarith [f.gap_pos rank]

theorem magnitude_pos (rank : Nat) (nonzero : rank ≠ 0) : 0 < f.magnitude rank := by
  have ordered := f.magnitude_strictMono (Nat.pos_of_ne_zero nonzero)
  rwa [magnitude_zero] at ordered

/-- The gap is small against the value, except where it is the least positive value. -/
theorem gap_mul_binade_le (rank : Nat) :
    f.gap rank * f.binade ≤ max (f.magnitude rank) (f.leastPositive * f.binade) := by
  obtain ⟨_, first | large⟩ := f.rank_place rank
  · have least : f.gap rank = f.leastPositive := by simp [gap, step_eq, first]
    rw [least]
    exact le_max_right _ _
  · rw [magnitude_eq, mul_comm]
    apply le_max_of_le_left
    exact mul_le_mul_of_nonneg_right (by exact_mod_cast large) (f.gap_pos rank).le

/-- The next value is at most two binades of the gap before it. -/
theorem magnitude_succ_le (rank : Nat) :
    f.magnitude (rank + 1) ≤ 2 * f.binade * f.gap rank := by
  have digits : (f.significand rank : Rat) + 1 ≤ 2 * f.binade := by
    exact_mod_cast f.significand_lt rank
  rw [magnitude_succ, magnitude_eq]
  nlinarith [f.gap_pos rank]

theorem midpoint_bounds (rank : Nat) :
    f.magnitude rank < f.midpoint rank ∧ f.midpoint rank < f.magnitude (rank + 1) := by
  have positive := f.gap_pos rank
  rw [midpoint, magnitude_succ]
  constructor <;> linarith

theorem midpoint_mono : Monotone f.midpoint := by
  apply monotone_nat_of_le_succ
  intro rank
  exact (f.midpoint_bounds rank).2.le.trans (f.midpoint_bounds (rank + 1)).1.le

end BinaryFormat

namespace FiniteNumber

variable {f : BinaryFormat} (x : FiniteNumber f)

theorem magnitude_nonneg : 0 ≤ x.magnitude := f.magnitude_nonneg x.rank

theorem magnitude_pos_iff : 0 < x.magnitude ↔ x.rank ≠ 0 := by
  constructor
  · intro positive zero
    rw [magnitude, zero, f.magnitude_zero] at positive
    exact lt_irrefl _ positive
  · exact f.magnitude_pos x.rank

theorem isZero_iff : x.isZero = true ↔ x.rank = 0 := by
  rw [isZero, decide_eq_true_eq]

theorem toRat_neg : x.neg.toRat = -x.toRat := by
  rw [toRat, toRat, neg, magnitude, magnitude]
  cases x.negative <;> simp

theorem abs_toRat : |x.toRat| = x.magnitude := by
  rw [toRat]
  split
  · rw [abs_neg, abs_of_nonneg x.magnitude_nonneg]
  · rw [abs_of_nonneg x.magnitude_nonneg]

theorem toRat_eq_zero_iff : x.toRat = 0 ↔ x.rank = 0 := by
  rw [← abs_eq_zero, x.abs_toRat]
  constructor
  · intro zero
    by_contra nonzero
    exact (x.magnitude_pos_iff.mpr nonzero).ne' zero
  · intro zero
    rw [magnitude, zero, f.magnitude_zero]

theorem negative_iff (nonzero : x.rank ≠ 0) : x.negative = true ↔ x.toRat < 0 := by
  have positive := x.magnitude_pos_iff.mpr nonzero
  rw [toRat]
  cases x.negative with
  | true => simpa using positive
  | false => simpa using positive.le

end FiniteNumber

end DeskCalculator
