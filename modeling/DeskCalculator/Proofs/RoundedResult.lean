import DeskCalculator.Display
import DeskCalculator.Proofs.ShortestDecimal

/-!
The rounded value of a result. It has the sign of the result, is zero only with it, and is its
own rounded value: where the decimal grid is coarser than the format the rounded decimal is
found again, and where the format is coarser every decimal so near is read as the same number.
-/

namespace DeskCalculator

theorem shownDigits_fits : 10 ^ shownDigits < BinaryFormat.double.binade := by decide

theorem double_leastPositive : BinaryFormat.double.leastPositive = (2 : Rat) ^ (-1074 : Int) := rfl

/-- The powers of ten around the least positive value, and the one below the least value that is
not subnormal. -/
theorem powers_of_ten :
    10 ^ 323 < 2 ^ 1074 ∧ 2 ^ 1074 < 10 ^ 324 ∧ 2 ^ 1022 ≤ 10 ^ 308 := by
  -- The exponents are too large to be computed at once.
  have low : 10 ^ 323 = (10 ^ 161) ^ 2 * 10 := by rw [← pow_mul, ← pow_succ]
  have high : 10 ^ 324 = (10 ^ 162) ^ 2 := by rw [← pow_mul]
  have least : 2 ^ 1074 = (2 ^ 256) ^ 4 * 2 ^ 50 := by rw [← pow_mul, ← pow_add]
  have normal : 2 ^ 1022 = (2 ^ 256) ^ 3 * 2 ^ 254 := by rw [← pow_mul, ← pow_add]
  have place : 10 ^ 308 = (10 ^ 154) ^ 2 := by rw [← pow_mul]
  rw [low, high, least, normal, place]
  norm_num

/-- Which decimal places are coarser than the least positive value. -/
theorem leastPositive_lt_power (place : Int) (coarse : -323 ≤ place) :
    BinaryFormat.double.leastPositive < (10 : Rat) ^ place := by
  calc
    BinaryFormat.double.leastPositive < (10 : Rat) ^ (-323 : Int) := by
      rw [double_leastPositive, zpow_neg, zpow_neg,
        inv_lt_inv₀ (zpow_pos (by norm_num) _) (ten_pos _)]
      exact_mod_cast powers_of_ten.1
    _ ≤ (10 : Rat) ^ place := zpow_le_zpow_right₀ (by norm_num) coarse

theorem power_lt_leastPositive (place : Int) (fine : place < -323) :
    (10 : Rat) ^ place < BinaryFormat.double.leastPositive := by
  calc
    (10 : Rat) ^ place ≤ (10 : Rat) ^ (-324 : Int) :=
      zpow_le_zpow_right₀ (by norm_num) (by omega)
    _ < BinaryFormat.double.leastPositive := by
      rw [double_leastPositive, zpow_neg, zpow_neg,
        inv_lt_inv₀ (ten_pos _) (zpow_pos (by norm_num) _)]
      exact_mod_cast powers_of_ten.2.1

namespace FiniteNumber

variable {f : BinaryFormat}

def shownDecimal (x : FiniteNumber f) : Decimal :=
  .significant shownDigits x.negative x.magnitude

theorem isExactInteger_of_zero (x : FiniteNumber f) (zero : x.rank = 0) :
    x.isExactInteger = true := by
  have magnitude : x.magnitude = 0 := by
    rw [FiniteNumber.magnitude, zero, f.magnitude_zero]
  have bound : (0 : Rat) ≤ 2 * f.binade := by positivity
  rw [isExactInteger, magnitude, decide_eq_true bound]
  rfl

theorem rounded_eq (x : FiniteNumber f) :
    x.rounded =
      if x.isExactInteger then x
      else
        match (x.shownDecimal.nearest : Number f) with
        | .finite y => y
        | _ => x := rfl

/-- A number whose rounded decimal is read back as the number is its own rounded value. -/
theorem rounded_of_reads (x : FiniteNumber f)
    (reads : f.nearestRank x.shownDecimal.magnitude = x.rank) : x.rounded = x := by
  have again : (x.shownDecimal.nearest : Number f) = .finite x := by
    rw [Decimal.nearest_eq_finite_iff]
    exact ⟨rfl, reads⟩
  rw [rounded_eq, again, ite_self]

theorem rounded_cases (x : FiniteNumber f) :
    (x.isExactInteger = true ∧ x.rounded = x) ∨
      (x.isExactInteger = false ∧ x.rank ≠ 0 ∧ ∃ y : FiniteNumber f,
        x.shownDecimal.nearest = Number.finite y ∧ x.rounded = y) ∨
      (x.isExactInteger = false ∧ x.rank ≠ 0 ∧
        x.shownDecimal.nearest = Number.infinity (f := f) x.negative ∧ x.rounded = x) := by
  rw [rounded_eq]
  cases exact : x.isExactInteger with
  | true => exact Or.inl ⟨rfl, rfl⟩
  | false =>
      have nonzero : x.rank ≠ 0 := by
        intro zero
        rw [x.isExactInteger_of_zero zero] at exact
        cases exact
      have reading := x.shownDecimal.nearest_eq_ofMagnitude (f := f)
      rw [Number.ofMagnitude] at reading
      split at reading
      · rw [reading]
        exact Or.inr (Or.inl ⟨rfl, nonzero, _, rfl, rfl⟩)
      · rw [reading]
        exact Or.inr (Or.inr ⟨rfl, nonzero, rfl, rfl⟩)

theorem rounded_negative (x : FiniteNumber f) : x.rounded.negative = x.negative := by
  rcases x.rounded_cases with ⟨_, same⟩ | ⟨_, _, y, reading, same⟩ | ⟨_, _, _, same⟩
  · rw [same]
  · rw [same]
    exact ((Decimal.nearest_eq_finite_iff _ y).mp reading).1.symm
  · rw [same]

theorem rounded_nonzero (x : FiniteNumber f) (nonzero : x.rank ≠ 0) : x.rounded.rank ≠ 0 := by
  rcases x.rounded_cases with ⟨_, same⟩ | ⟨_, _, y, reading, same⟩ | ⟨_, _, _, same⟩
  · rwa [same]
  · rw [same, ← ((Decimal.nearest_eq_finite_iff _ y).mp reading).2]
    have positive := x.magnitude_pos_iff.mpr nonzero
    have least : f.leastPositive ≤ x.magnitude := by
      have ordered := f.magnitude_strictMono.monotone (Nat.one_le_iff_ne_zero.mpr nonzero)
      have first := f.magnitude_succ 0
      rw [f.magnitude_zero, zero_add] at first
      rw [zero_add] at first
      exact ((f.leastPositive_le_gap 0).trans first.ge).trans ordered
    have bounds := digitPlace_bounds shownDigits x.magnitude (by decide) positive
    have error := abs_le.mp
      (Decimal.significant_error shownDigits x.negative x.magnitude (by decide) positive)
    have few : (10 : Rat) ^ digitPlace shownDigits x.magnitude * 2 ≤ x.magnitude := by
      have power : (2 : Rat) ≤ 10 ^ (shownDigits - 1) := by norm_num [shownDigits]
      nlinarith [ten_pos (digitPlace shownDigits x.magnitude)]
    apply Nat.pos_iff_ne_zero.mp
    apply f.lt_nearestRank _ 0 (Decimal.magnitude_nonneg _)
    have half : f.midpoint 0 = f.leastPositive / 2 := by
      simp [BinaryFormat.midpoint, BinaryFormat.gap, BinaryFormat.step, f.magnitude_zero]
    rw [half, shownDecimal]
    linarith
  · rwa [same]

end FiniteNumber

/-- The decimal that a number was read from is rounded back to a decimal of the number. -/
theorem significant_reads_back (y : FiniteNumber .double) (negative : Bool) (digits : Nat)
    (place : Int) (nonzero : y.rank ≠ 0) (few : digits ≤ 10 ^ shownDigits)
    (reads : BinaryFormat.double.nearestRank (digits * (10 : Rat) ^ place) = y.rank) :
    BinaryFormat.double.nearestRank
      (Decimal.significant shownDigits negative y.magnitude).magnitude = y.rank := by
  have positive := y.magnitude_pos_iff.mpr nonzero
  have nonneg : 0 ≤ digits * (10 : Rat) ^ place :=
    mul_nonneg (Nat.cast_nonneg _) (ten_pos place).le
  by_cases coarse : -323 ≤ digitPlace shownDigits y.magnitude
  · have near : |y.magnitude - digits * (10 : Rat) ^ place| <
        (10 : Rat) ^ digitPlace shownDigits y.magnitude / 2 :=
      near_of_reads _ shownDigits _ y.rank (by decide) shownDigits_fits nonneg nonzero reads
        (leastPositive_lt_power _ coarse)
    rcases digits_onGrid_or_below shownDigits y.magnitude digits place (by decide) few with
      onGrid | ⟨_, below⟩
    · rw [Decimal.significant_of_near shownDigits negative y.magnitude _ (by decide) positive
        onGrid near]
      exact reads
    · -- The power of ten between the decimal and the number is nearer to the number than the
      -- decimal, and what lies between the two is read as the number.
      have reached := (leadingExponent_bounds 10 y.magnitude (by norm_num) positive).1
      push_cast at reached
      rw [Decimal.significant_power shownDigits negative y.magnitude (by decide) positive
        (by linarith [(abs_lt.mp near).2])]
      exact BinaryFormat.double.nearestRank_convex _ _ y.magnitude _ nonneg below reached reads
        (BinaryFormat.double.nearestRank_magnitude y.rank)
  · have error := Decimal.significant_error shownDigits negative y.magnitude (by decide) positive
    have fine := power_lt_leastPositive _ (not_le.mp coarse)
    apply BinaryFormat.double.nearestRank_of_close_least _ _ (Decimal.magnitude_nonneg _)
    change |_ - y.magnitude| < _
    linarith

theorem FiniteNumber.rounded_rounded (x : FiniteNumber .double) :
    x.rounded.rounded = x.rounded := by
  rcases x.rounded_cases with ⟨_, same⟩ | ⟨_, nonzero, y, reading, same⟩ | ⟨_, _, _, same⟩
  · rw [same, same]
  · have kept := x.rounded_nonzero nonzero
    rw [same] at kept ⊢
    have reads := ((Decimal.nearest_eq_finite_iff _ y).mp reading).2
    have few := (Decimal.significant_digits shownDigits x.negative x.magnitude (by decide)
      (x.magnitude_pos_iff.mpr nonzero)).2.1
    exact y.rounded_of_reads (significant_reads_back y y.negative _ _ kept few reads)
  · rw [same, same]

end DeskCalculator
