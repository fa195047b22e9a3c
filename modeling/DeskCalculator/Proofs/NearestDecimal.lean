import DeskCalculator.Decimal
import DeskCalculator.Proofs.LeadingExponent

/-!
A decimal is read as the number nearest to its exact value. The reader settles a decimal of
great exponent from the exponent alone; what is shown here is that the exact value, rounded,
would have overflowed or vanished there too, so the shortcut is not a second meaning.
-/

namespace DeskCalculator

theorem halfEven_of_lt_half (q : Rat) (nonneg : 0 ≤ q) (small : q < 1 / 2) :
    halfEven q = 0 := by
  have below : q.floor = 0 := by
    have lower : 0 ≤ q.floor := Rat.le_floor_iff.mpr nonneg
    have upper : ¬ 1 ≤ q.floor := by
      intro one
      have reached := Rat.le_floor_iff.mp one
      norm_num at reached
      linarith
    omega
  simp only [halfEven, below]
  rw [if_pos (by simpa using small)]

theorem le_halfEven (n : Int) (q : Rat) (reached : (n : Rat) ≤ q) : n ≤ halfEven q := by
  have below : n ≤ q.floor := Rat.le_floor_iff.mpr reached
  simp only [halfEven]
  split
  · exact below
  · split
    · omega
    · split <;> omega

namespace BinaryFormat

variable (f : BinaryFormat)

theorem binade_eq : f.binade = 2 ^ f.fractionBits := by
  rw [binade, Nat.one_shiftLeft]

theorem leastPositive_pos : 0 < f.leastPositive := zpow_pos (by norm_num) _

theorem exponentLimit_pos : 1 ≤ f.exponentLimit := by
  rw [exponentLimit, Nat.one_shiftLeft]
  exact Nat.one_le_two_pow

theorem infinityRank_le : f.infinityRank ≤ (2 * f.exponentLimit - 1) * f.binade := by
  have doubled : 1 <<< f.exponentBits ≤ 2 * f.exponentLimit := by
    rw [exponentLimit, Nat.one_shiftLeft, Nat.one_shiftLeft]
    cases f.exponentBits with
    | zero => decide
    | succ bits => rw [Nat.pow_succ, Nat.mul_comm, Nat.add_sub_cancel]
  rw [infinityRank]
  exact Nat.mul_le_mul_right _ (by omega)

theorem nearestRank_zero : f.nearestRank 0 = 0 := by simp [nearestRank]

/-- Below half the least positive value there is nothing left. -/
theorem nearestRank_of_vanishing (q : Rat) (positive : 0 < q)
    (small : q < f.leastPositive / 2) : f.nearestRank q = 0 := by
  have unitsPositive : 0 < q / f.leastPositive := div_pos positive f.leastPositive_pos
  have unitsSmall : q / f.leastPositive < 1 / 2 := by
    rw [div_lt_iff₀ f.leastPositive_pos]
    linarith
  have bounds := leadingExponent_bounds 2 (q / f.leastPositive) (by norm_num) unitsPositive
  have negative : leadingExponent 2 (q / f.leastPositive) < 0 := by
    by_contra reached
    have power := (leadingExponent_le_iff 2 _ (by norm_num) unitsPositive 0).mp (by omega)
    simp only [zpow_zero] at power
    linarith
  have place : (leadingExponent 2 (q / f.leastPositive) - f.fractionBits).toNat = 0 := by
    omega
  simp only [nearestRank, positive.ne', ↓reduceIte, place]
  simp [nearestMultiple, halfEven_of_lt_half _ unitsPositive.le unitsSmall]

/-- From the limit of the exponents on there is no finite value left. -/
theorem infinityRank_le_nearestRank (q : Rat) (large : (2 : Rat) ^ f.exponentLimit ≤ q) :
    f.infinityRank ≤ f.nearestRank q := by
  have two : (0 : Rat) < 2 := by norm_num
  have positive : 0 < q := (pow_pos two _).trans_le large
  have unitsPositive : 0 < q / f.leastPositive := div_pos positive f.leastPositive_pos
  have unitsLarge : (2 : Rat) ^ ((f.exponentLimit : Int) - f.leastExponent) ≤
      q / f.leastPositive := by
    rw [le_div_iff₀ f.leastPositive_pos, leastPositive, ← zpow_add₀ two.ne', sub_add_cancel,
      zpow_natCast]
    exact large
  have reached := (leadingExponent_le_iff 2 _ (by norm_num) unitsPositive _).mpr unitsLarge
  have bounds := leadingExponent_bounds 2 (q / f.leastPositive) (by norm_num) unitsPositive
  have spread : (f.exponentLimit : Int) - f.leastExponent =
      2 * f.exponentLimit - 2 + f.fractionBits := by
    rw [leastExponent]
    ring
  have limit := f.exponentLimit_pos
  have place : ((leadingExponent 2 (q / f.leastPositive) - f.fractionBits).toNat : Int) =
      leadingExponent 2 (q / f.leastPositive) - f.fractionBits := by
    omega
  -- A significand is a whole binade at least, and every place it is shifted by adds another.
  have significand : (f.binade : Int) ≤ nearestMultiple 2
      ((leadingExponent 2 (q / f.leastPositive) - f.fractionBits).toNat : Int)
      (q / f.leastPositive) := by
    apply le_halfEven
    rw [place, le_div_iff₀ (zpow_pos (by norm_num) _), Int.cast_natCast, binade_eq]
    calc
      (((2 ^ f.fractionBits : Nat) : Rat) * ((2 : Nat) : Rat) ^
          (leadingExponent 2 (q / f.leastPositive) - f.fractionBits))
          = (2 : Rat) ^ leadingExponent 2 (q / f.leastPositive) := by
        push_cast
        rw [← zpow_natCast, ← zpow_add₀ two.ne', add_sub_cancel]
      _ ≤ q / f.leastPositive := by simpa using bounds.1
  calc
    f.infinityRank ≤ (2 * f.exponentLimit - 1) * f.binade := f.infinityRank_le
    _ = (2 * f.exponentLimit - 2) * f.binade + f.binade := by
      rw [show 2 * f.exponentLimit - 1 = 2 * f.exponentLimit - 2 + 1 by omega, Nat.add_mul,
        Nat.one_mul]
    _ ≤ f.nearestRank q := by
      simp only [nearestRank, positive.ne', ↓reduceIte]
      refine Nat.add_le_add (Nat.mul_le_mul_right _ (by omega)) (by omega)

end BinaryFormat

namespace Decimal

theorem eight_le_ten (exponent : Int) (nonneg : 0 ≤ exponent) :
    (2 : Rat) ^ (3 * exponent) ≤ (10 : Rat) ^ exponent := by
  rw [zpow_mul]
  exact zpow_le_zpow_left₀ nonneg (by norm_num) (by norm_num)

theorem ten_le_eight (exponent : Int) (nonpos : exponent ≤ 0) :
    (10 : Rat) ^ exponent ≤ (2 : Rat) ^ (3 * exponent) := by
  have inverse := eight_le_ten (-exponent) (by omega)
  rw [mul_neg, zpow_neg, zpow_neg] at inverse
  exact (inv_le_inv₀ (zpow_pos (by norm_num) _) (zpow_pos (by norm_num) _)).mp inverse

theorem magnitude_bounds (d : Decimal) (nonzero : d.digits ≠ 0) :
    (10 : Rat) ^ d.leading ≤ d.magnitude ∧ d.magnitude < (10 : Rat) ^ (d.leading + 1) := by
  have ten : (0 : Rat) < 10 := by norm_num
  have bounds := natExponent_bounds_rat 10 d.digits (by norm_num) (by omega)
  have power : (0 : Rat) < (10 : Rat) ^ d.exponent := zpow_pos ten _
  rw [leading, magnitude, add_right_comm, zpow_add₀ ten.ne', zpow_add₀ ten.ne']
  constructor
  · exact mul_le_mul_of_nonneg_right (by simpa using bounds.1) power.le
  · exact mul_lt_mul_of_pos_right (by simpa using bounds.2) power

end Decimal

namespace Number

variable {f : BinaryFormat}

theorem ofMagnitude_congr (negative : Bool) (q r : Rat)
    (same : f.nearestRank q = f.nearestRank r) :
    (ofMagnitude negative q : Number f) = ofMagnitude negative r := by
  simp only [ofMagnitude, same]

theorem ofRat_of_nonneg (q : Rat) (nonneg : 0 ≤ q) :
    (ofRat false q : Number f) = ofMagnitude false q := by
  by_cases zero : q = 0
  · rw [ofRat, if_pos zero, zero]
  · rw [ofRat, if_neg zero, decide_eq_false (not_lt.mpr nonneg), Rat.abs_of_nonneg nonneg]

end Number

/-- The two shortcuts of the reader agree with rounding the exact value. -/
theorem Decimal.nearest_eq_ofMagnitude {f : BinaryFormat} (d : Decimal) :
    (d.nearest : Number f) = .ofMagnitude d.negative d.magnitude := by
  rw [nearest]
  by_cases zero : d.digits = 0
  · rw [if_pos zero, Number.zero, magnitude, zero]
    simp
  · have bounds := d.magnitude_bounds zero
    have positive : 0 < d.magnitude := (zpow_pos (by norm_num) _).trans_le bounds.1
    rw [if_neg zero]
    split
    · rename_i overflows
      have large : (2 : Rat) ^ f.exponentLimit ≤ d.magnitude := by
        calc
          (2 : Rat) ^ f.exponentLimit = (2 : Rat) ^ (f.exponentLimit : Int) := by
            rw [zpow_natCast]
          _ ≤ (2 : Rat) ^ (3 * d.leading) := zpow_le_zpow_right₀ (by norm_num) overflows
          _ ≤ (10 : Rat) ^ d.leading := eight_le_ten _ (by omega)
          _ ≤ d.magnitude := bounds.1
      have past := f.infinityRank_le_nearestRank d.magnitude large
      rw [Number.ofMagnitude, dif_neg (by omega)]
    · split
      · rename_i vanishes
        have limit := f.exponentLimit_pos
        have least : f.leastExponent ≤ 1 := by
          rw [BinaryFormat.leastExponent]
          omega
        have small : d.magnitude < f.leastPositive / 2 := by
          calc
            d.magnitude < (10 : Rat) ^ (d.leading + 1) := bounds.2
            _ ≤ (2 : Rat) ^ (3 * (d.leading + 1)) := ten_le_eight _ (by omega)
            _ ≤ (2 : Rat) ^ (f.leastExponent - 1) :=
              zpow_le_zpow_right₀ (by norm_num) (by omega)
            _ = f.leastPositive / 2 := by
              rw [BinaryFormat.leastPositive, zpow_sub_one₀ (by norm_num), div_eq_mul_inv]
        apply Number.ofMagnitude_congr
        rw [f.nearestRank_zero, f.nearestRank_of_vanishing d.magnitude positive small]
      · rfl

end DeskCalculator
