import DeskCalculator.Proofs.NearestRank

/-!
Decimal grids. A count of significant digits puts a rational on the grid of a power of ten,
and rounding to that count takes the nearest point of this grid. Where a format is finer than
the grid, no two points of it are read as the same number.
-/

namespace DeskCalculator

def IsMultiple (place : Int) (v : Rat) : Prop := ∃ digits : Int, v = digits * (10 : Rat) ^ place

theorem ten_pos (place : Int) : (0 : Rat) < (10 : Rat) ^ place := zpow_pos (by norm_num) _

theorem isMultiple_power (fine place : Int) (ordered : fine ≤ place) :
    IsMultiple fine ((10 : Rat) ^ place) := by
  refine ⟨10 ^ (place - fine).toNat, ?_⟩
  push_cast
  rw [← zpow_natCast, ← zpow_add₀ (by norm_num)]
  congr 1
  omega

theorem IsMultiple.finer {fine coarse : Int} {v : Rat} (multiple : IsMultiple coarse v)
    (ordered : fine ≤ coarse) : IsMultiple fine v := by
  obtain ⟨digits, rfl⟩ := multiple
  obtain ⟨more, power⟩ := isMultiple_power fine coarse ordered
  refine ⟨digits * more, ?_⟩
  rw [power]
  push_cast
  ring

theorem IsMultiple.eq_of_close {place : Int} {v w : Rat} (left : IsMultiple place v)
    (right : IsMultiple place w) (close : |v - w| < (10 : Rat) ^ place) : v = w := by
  obtain ⟨m, rfl⟩ := left
  obtain ⟨n, rfl⟩ := right
  rw [← sub_mul, abs_mul, abs_of_pos (ten_pos place)] at close
  have apart : |(m : Rat) - n| < 1 := by
    by_contra far
    nlinarith [ten_pos place]
  rw [int_eq_of_close m n apart]

/-- The place of the last of a count of significant digits. -/
def digitPlace (count : Nat) (q : Rat) : Int := leadingExponent 10 q - (count - 1 : Nat)

theorem digitPlace_bounds (count : Nat) (q : Rat) (atLeastOne : 1 ≤ count) (positive : 0 < q) :
    (10 : Rat) ^ (count - 1) * (10 : Rat) ^ digitPlace count q ≤ q ∧
      q < (10 : Rat) ^ count * (10 : Rat) ^ digitPlace count q := by
  have bounds := leadingExponent_bounds 10 q (by norm_num) positive
  push_cast at bounds
  rw [← zpow_natCast, ← zpow_natCast, ← zpow_add₀ (by norm_num), ← zpow_add₀ (by norm_num)]
  have leading : ((count - 1 : Nat) : Int) + digitPlace count q = leadingExponent 10 q := by
    rw [digitPlace]
    ring
  have next : (count : Int) + digitPlace count q = leadingExponent 10 q + 1 := by omega
  rw [leading, next]
  exact bounds

/-- A decimal of few digits lies on the grid of a rational, unless the power of ten that the
rational has reached lies between them. -/
theorem digits_onGrid_or_below (count : Nat) (q : Rat) (digits : Nat) (place : Int)
    (atLeastOne : 1 ≤ count) (few : digits ≤ 10 ^ count) :
    IsMultiple (digitPlace count q) (digits * (10 : Rat) ^ place) ∨
      (place < digitPlace count q ∧
        digits * (10 : Rat) ^ place ≤ (10 : Rat) ^ leadingExponent 10 q) := by
  by_cases fine : digitPlace count q ≤ place
  · exact Or.inl (IsMultiple.finer ⟨digits, by push_cast; rfl⟩ fine)
  · right
    refine ⟨not_le.mp fine, ?_⟩
    rw [digitPlace] at fine
    calc
      digits * (10 : Rat) ^ place ≤ (10 : Rat) ^ count * (10 : Rat) ^ place :=
        mul_le_mul_of_nonneg_right (by exact_mod_cast few) (ten_pos place).le
      _ = (10 : Rat) ^ (count + place) := by
        rw [← zpow_natCast, ← zpow_add₀ (by norm_num)]
      _ ≤ (10 : Rat) ^ leadingExponent 10 q := zpow_le_zpow_right₀ (by norm_num) (by omega)

/-- A decimal of few digits that is nearer to a rational than its own last place lies on the
grid of the rational. -/
theorem digits_onGrid (count : Nat) (q : Rat) (digits : Nat) (place : Int)
    (atLeastOne : 1 ≤ count) (positive : 0 < q) (few : digits ≤ 10 ^ count)
    (near : |q - digits * (10 : Rat) ^ place| < (10 : Rat) ^ place) :
    IsMultiple (digitPlace count q) (digits * (10 : Rat) ^ place) := by
  rcases digits_onGrid_or_below count q digits place atLeastOne few with onGrid | ⟨finer, below⟩
  · exact onGrid
  · have reached := (leadingExponent_bounds 10 q (by norm_num) positive).1
    push_cast at reached
    have inside : digitPlace count q ≤ leadingExponent 10 q := by
      rw [digitPlace]
      omega
    -- The power of ten is a point of both grids, and too near to be another point.
    have same : digits * (10 : Rat) ^ place = (10 : Rat) ^ leadingExponent 10 q := by
      have own : IsMultiple place (digits * (10 : Rat) ^ place) := ⟨digits, by push_cast; rfl⟩
      apply own.eq_of_close (isMultiple_power place _ (by omega))
      rw [abs_lt] at near
      rw [abs_lt]
      constructor <;> linarith [ten_pos place]
    rw [same]
    exact isMultiple_power _ _ inside

namespace Decimal

theorem magnitude_nonneg (d : Decimal) : 0 ≤ d.magnitude :=
  mul_nonneg (Nat.cast_nonneg _) (ten_pos _).le

theorem isMultiple_magnitude (d : Decimal) : IsMultiple d.exponent d.magnitude :=
  ⟨d.digits, by rw [magnitude]; push_cast; rfl⟩

section Significant

variable (count : Nat) (negative : Bool) (q : Rat)

/-- The digits that a positive rational is rounded to are of the count, or one with zeros
that overflows it. -/
theorem significant_digits (atLeastOne : 1 ≤ count) (positive : 0 < q) :
    10 ^ (count - 1) ≤ (significant count negative q).digits ∧
      (significant count negative q).digits ≤ 10 ^ count ∧
      ((significant count negative q).digits : Int) =
        nearestMultiple 10 (digitPlace count q) q := by
  have bounds := digitPlace_bounds count q atLeastOne positive
  have low : ((10 ^ (count - 1) : Nat) : Int) ≤ nearestMultiple 10 (digitPlace count q) q := by
    apply le_halfEven
    push_cast
    exact (le_div_iff₀ (ten_pos _)).mpr bounds.1
  have high : nearestMultiple 10 (digitPlace count q) q ≤ ((10 ^ count : Nat) : Int) := by
    apply halfEven_le
    push_cast
    exact (div_le_iff₀ (ten_pos _)).mpr bounds.2.le
  have nonneg := (Int.natCast_nonneg _).trans low
  exact ⟨(Int.le_toNat nonneg).mpr low, Int.toNat_le.mpr high, Int.toNat_of_nonneg nonneg⟩

theorem significant_magnitude (atLeastOne : 1 ≤ count) (positive : 0 < q) :
    (significant count negative q).magnitude =
      nearestMultiple 10 (digitPlace count q) q * (10 : Rat) ^ digitPlace count q := by
  have digits := (significant_digits count negative q atLeastOne positive).2.2
  have cast : ((significant count negative q).digits : Rat) =
      nearestMultiple 10 (digitPlace count q) q := by exact_mod_cast digits
  rw [magnitude, cast]
  rfl

theorem significant_error (atLeastOne : 1 ≤ count) (positive : 0 < q) :
    |(significant count negative q).magnitude - q| ≤ (10 : Rat) ^ digitPlace count q / 2 := by
  rw [significant_magnitude count negative q atLeastOne positive]
  have error := nearestMultiple_error 10 (digitPlace count q) q (by norm_num)
  push_cast at error
  exact error

/-- Rounding keeps the power of ten that a rational has reached, and goes no further than the
next one. -/
theorem significant_bounds (atLeastOne : 1 ≤ count) (positive : 0 < q) :
    (10 : Rat) ^ leadingExponent 10 q ≤ (significant count negative q).magnitude ∧
      (significant count negative q).magnitude ≤ (10 : Rat) ^ (leadingExponent 10 q + 1) := by
  have digits := significant_digits count negative q atLeastOne positive
  have low : (10 : Rat) ^ (count - 1) ≤ (significant count negative q).digits := by
    exact_mod_cast digits.1
  have high : ((significant count negative q).digits : Rat) ≤ (10 : Rat) ^ count := by
    exact_mod_cast digits.2.1
  have unit := (ten_pos (significant count negative q).exponent).le
  have place : (significant count negative q).exponent = leadingExponent 10 q - (count - 1 : Nat) :=
    rfl
  constructor
  · calc
      (10 : Rat) ^ leadingExponent 10 q =
          (10 : Rat) ^ (count - 1) * (10 : Rat) ^ (significant count negative q).exponent := by
        rw [← zpow_natCast, ← zpow_add₀ (by norm_num), place]
        congr 1
        omega
      _ ≤ (significant count negative q).magnitude := mul_le_mul_of_nonneg_right low unit
  · calc
      (significant count negative q).magnitude ≤
          (10 : Rat) ^ count * (10 : Rat) ^ (significant count negative q).exponent :=
        mul_le_mul_of_nonneg_right high unit
      _ = (10 : Rat) ^ (leadingExponent 10 q + 1) := by
        rw [← zpow_natCast, ← zpow_add₀ (by norm_num), place]
        congr 1
        omega

theorem significant_of_near (v : Rat) (atLeastOne : 1 ≤ count) (positive : 0 < q)
    (onGrid : IsMultiple (digitPlace count q) v)
    (near : |q - v| < (10 : Rat) ^ digitPlace count q / 2) :
    (significant count negative q).magnitude = v := by
  have error := significant_error count negative q atLeastOne positive
  apply IsMultiple.eq_of_close (isMultiple_magnitude _) onGrid
  have apart := abs_sub_le (significant count negative q).magnitude q v
  have exponent : (significant count negative q).exponent = digitPlace count q := rfl
  rw [exponent]
  linarith

theorem significant_power (atLeastOne : 1 ≤ count) (positive : 0 < q)
    (near : q - (10 : Rat) ^ leadingExponent 10 q < (10 : Rat) ^ digitPlace count q / 2) :
    (significant count negative q).magnitude = (10 : Rat) ^ leadingExponent 10 q := by
  have reached := (leadingExponent_bounds 10 q (by norm_num) positive).1
  push_cast at reached
  apply significant_of_near count negative q _ atLeastOne positive
  · apply isMultiple_power
    rw [digitPlace]
    omega
  · rwa [abs_of_nonneg (sub_nonneg.mpr reached)]

end Significant

end Decimal

section Coarse

variable (f : BinaryFormat) (count : Nat)

/-- A grid that is coarser than the least positive value and too coarse for the significands
has no two points in one rounding interval. -/
theorem near_of_reads (q : Rat) (rank : Nat) (atLeastOne : 1 ≤ count)
    (fits : 10 ^ count < f.binade) (nonneg : 0 ≤ q) (nonzero : rank ≠ 0)
    (reads : f.nearestRank q = rank)
    (coarse : f.leastPositive < (10 : Rat) ^ digitPlace count (f.magnitude rank)) :
    |f.magnitude rank - q| < (10 : Rat) ^ digitPlace count (f.magnitude rank) / 2 := by
  have binade : ((10 : Rat) ^ count) < f.binade := by exact_mod_cast fits
  have bounds := digitPlace_bounds count _ atLeastOne (f.magnitude_pos rank nonzero)
  have error := f.nearestRank_error q nonneg
  rw [reads] at error
  have limit : max (f.magnitude rank) (f.leastPositive * f.binade) <
      (10 : Rat) ^ digitPlace count (f.magnitude rank) * f.binade := by
    apply max_lt
    · nlinarith [ten_pos (digitPlace count (f.magnitude rank))]
    · exact mul_lt_mul_of_pos_right coarse (by exact_mod_cast f.binade_pos)
  nlinarith [f.leastPositive_pos]

theorem near_of_digits (digits : Nat) (place : Int) (fits : 10 ^ count < f.binade)
    (few : digits ≤ 10 ^ count) (coarse : f.leastPositive < (10 : Rat) ^ place) :
    |f.magnitude (f.nearestRank (digits * (10 : Rat) ^ place)) - digits * (10 : Rat) ^ place| <
      (10 : Rat) ^ place / 2 := by
  have binade : (digits : Rat) < f.binade := by exact_mod_cast few.trans_lt fits
  have error := f.nearestRank_error_input (digits * (10 : Rat) ^ place)
    (mul_nonneg (Nat.cast_nonneg _) (ten_pos place).le)
  have positive : (0 : Rat) < f.binade := by exact_mod_cast f.binade_pos
  have limit : max (digits * (10 : Rat) ^ place) (f.leastPositive * f.binade) <
      (10 : Rat) ^ place * f.binade := by
    apply max_lt
    · nlinarith [ten_pos place]
    · nlinarith
  nlinarith

end Coarse

end DeskCalculator
