import DeskCalculator.Proofs.KeptDigits
import DeskCalculator.Proofs.NearestValue

/-!
What a result says of the value. Rounding to a count of significant digits is described by the
distance to the value alone: half a unit of the last digit at most, and at just that distance
the digit is even. A result that is not subnormal, no exact integer and not past the greatest
value is written as this rounding, although it was read and printed in between.
-/

namespace DeskCalculator

/-- Whether `v` is `q` rounded to the count of significant digits, ties to an even last digit. -/
def IsRounding (count : Nat) (q v : Rat) : Prop :=
  ∃ leading digits : Int, (10 : Rat) ^ leading ≤ |q| ∧ |q| < (10 : Rat) ^ (leading + 1) ∧
    v = digits * (10 : Rat) ^ (leading + 1 - count) ∧
    |v - q| ≤ (10 : Rat) ^ (leading + 1 - count) / 2 ∧
    (|v - q| = (10 : Rat) ^ (leading + 1 - count) / 2 → digits % 2 = 0)

/-- An integer that the doubles hold with all its neighbours. -/
def IsSmallInteger (v : Rat) : Prop := ∃ n : Int, v = n ∧ |n| ≤ 2 ^ 53

def Overflows (v : Rat) : Prop := ∃ negative, (Number.ofRat false v : Double) = .infinity negative

theorem IsRounding.neg {count : Nat} {q v : Rat} (rounding : IsRounding count q v) :
    IsRounding count (-q) (-v) := by
  obtain ⟨leading, digits, low, high, split, error, tie⟩ := rounding
  have distance : |-v - -q| = |v - q| := by
    rw [show -v - -q = -(v - q) by ring, abs_neg]
  refine ⟨leading, -digits, ?_, ?_, ?_, ?_, ?_⟩
  · rwa [abs_neg]
  · rwa [abs_neg]
  · rw [split]
    push_cast
    ring
  · rwa [distance]
  · intro same
    rw [distance] at same
    have even := tie same
    omega

theorem nearestMultiple_eq_iff (place : Int) (q : Rat) (n : Int) :
    nearestMultiple 10 place q = n ↔
      |n * (10 : Rat) ^ place - q| ≤ (10 : Rat) ^ place / 2 ∧
        (|n * (10 : Rat) ^ place - q| = (10 : Rat) ^ place / 2 → n % 2 = 0) := by
  have unit := ten_pos place
  have scaled : |n * (10 : Rat) ^ place - q| =
      |(n : Rat) - q / (10 : Rat) ^ place| * (10 : Rat) ^ place := by
    rw [← abs_of_pos unit, ← abs_mul, abs_of_pos unit, sub_mul, div_mul_cancel₀ _ unit.ne']
  have half : (10 : Rat) ^ place / 2 = 1 / 2 * (10 : Rat) ^ place := by ring
  rw [scaled, half, mul_le_mul_iff_left₀ unit, mul_left_inj' unit.ne', nearestMultiple]
  push_cast
  constructor
  · rintro rfl
    exact ⟨halfEven_error _, halfEven_tie _⟩
  · rintro ⟨close, even⟩
    exact halfEven_unique _ n close even

theorem isRounding_iff_significant (count : Nat) (negative : Bool) (q v : Rat)
    (atLeastOne : 1 ≤ count) (positive : 0 < q) :
    IsRounding count q v ↔ v = (Decimal.significant count negative q).magnitude := by
  have place : leadingExponent 10 q + 1 - count = digitPlace count q := by
    rw [digitPlace]
    omega
  rw [Decimal.significant_magnitude count negative q atLeastOne positive]
  constructor
  · rintro ⟨leading, digits, low, high, rfl, distance⟩
    rw [abs_of_pos positive] at low high
    have same : leading = leadingExponent 10 q := by
      have least := (leadingExponent_le_iff 10 q (by norm_num) positive leading).mpr
        (by exact_mod_cast low)
      have most := mt (leadingExponent_le_iff 10 q (by norm_num) positive (leading + 1)).mp
        (not_le.mpr (by exact_mod_cast high))
      omega
    rw [same, place] at distance ⊢
    rw [(nearestMultiple_eq_iff _ q digits).mpr distance]
  · rintro rfl
    have bounds := leadingExponent_bounds 10 q (by norm_num) positive
    push_cast at bounds
    refine ⟨leadingExponent 10 q, nearestMultiple 10 (digitPlace count q) q, ?_, ?_, ?_⟩
    · rw [abs_of_pos positive]
      exact bounds.1
    · rw [abs_of_pos positive]
      exact bounds.2
    · rw [place]
      exact ⟨rfl, (nearestMultiple_eq_iff _ q _).mp rfl⟩

namespace FiniteNumber

variable (x : FiniteNumber .double)

/-- The rounding of a nonzero number is its decimal of the digits that are shown. -/
theorem isRounding_iff (nonzero : x.rank ≠ 0) (v : Rat) :
    IsRounding 15 x.toRat v ↔ v = x.shownDecimal.toRat := by
  have positive := x.magnitude_pos_iff.mpr nonzero
  have unsigned := fun w =>
    isRounding_iff_significant 15 x.negative x.magnitude w (by norm_num) positive
  rw [toRat, Decimal.toRat]
  change _ ↔ v = if x.negative then -x.shownDecimal.magnitude else x.shownDecimal.magnitude
  cases x.negative with
  | false => exact unsigned v
  | true =>
      -- A negative number is rounded like its opposite.
      rw [if_pos rfl, if_pos rfl, ← neg_eq_iff_eq_neg]
      constructor
      · intro rounding
        have mirrored := rounding.neg
        rw [neg_neg] at mirrored
        exact (unsigned (-v)).mp mirrored
      · intro same
        have mirrored := ((unsigned (-v)).mpr same).neg
        rwa [neg_neg] at mirrored

theorem shownDecimal_digits (nonzero : x.rank ≠ 0) : x.shownDecimal.digits ≠ 0 := by
  have positive := x.magnitude_pos_iff.mpr nonzero
  have digits := Decimal.significant_digits shownDigits x.negative x.magnitude (by decide) positive
  exact (Nat.lt_of_lt_of_le (by decide) digits.1).ne'

theorem isSmallInteger_iff : IsSmallInteger x.toRat ↔ x.isExactInteger = true := by
  rw [isExactInteger_iff]
  constructor
  · rintro ⟨n, value, small⟩
    refine ⟨n.natAbs, ?_, ?_⟩
    · rw [← x.abs_toRat, value, Nat.cast_natAbs, Int.cast_abs]
    · rw [Int.abs_eq_natAbs] at small
      exact_mod_cast small
  · rintro ⟨n, value, small⟩
    have bound : |(n : Int)| ≤ 2 ^ 53 := by
      rw [Nat.abs_cast]
      exact_mod_cast small
    rw [toRat, value]
    cases x.negative with
    | false => exact ⟨n, rfl, bound⟩
    | true => exact ⟨-n, by push_cast; rfl, by rwa [abs_neg]⟩

end FiniteNumber

theorem FiniteNumber.readsDigits_shownDecimal (x y : FiniteNumber .double)
    (normal : (2 : Rat) ^ (-1022 : Int) ≤ x.magnitude)
    (reading : (x.shownDecimal.nearest : Double) = .finite y) :
    ReadsDigits x.shownDecimal.digits x.shownDecimal.exponent y := by
  have large := power_le_leastNormal.trans normal
  have positive : 0 < x.magnitude := (ten_pos _).trans_le large
  have digits := Decimal.significant_digits shownDigits x.negative x.magnitude (by decide) positive
  refine ⟨digits.2.1, ?_, ((Decimal.nearest_eq_finite_iff _ y).mp reading).2⟩
  have leading : -308 ≤ leadingExponent 10 x.magnitude :=
    (leadingExponent_le_iff 10 x.magnitude (by norm_num) positive (-308)).mpr
      (by exact_mod_cast large)
  calc
    (10 : Rat) ^ (-308 : Int) ≤ (10 : Rat) ^ leadingExponent 10 x.magnitude :=
      zpow_le_zpow_right₀ (by norm_num) leading
    _ ≤ x.shownDecimal.magnitude :=
      (Decimal.significant_bounds shownDigits x.negative x.magnitude (by decide) positive).1

section Rounded

variable (x : FiniteNumber .double) (notInteger : x.isExactInteger ≠ true)

include notInteger

theorem shown_denotes_rounding (normal : (2 : Rat) ^ (-1022 : Int) ≤ x.magnitude)
    (finite : ¬Overflows x.shownDecimal.toRat) :
    Denotes x.rounded.toDecimal.text x.shownDecimal.toRat := by
  have nonzero : x.rank ≠ 0 := mt x.isExactInteger_of_zero notInteger
  rcases x.rounded_cases with ⟨exact, _⟩ | ⟨_, _, y, reading, same⟩ | ⟨_, _, reading, _⟩
  · exact absurd exact notInteger
  · have written := (x.readsDigits_shownDecimal y normal reading).shown_denotes
    rw [← ((Decimal.nearest_eq_finite_iff _ y).mp reading).1] at written
    rw [same]
    exact written
  · rw [x.shownDecimal.nearest_eq_ofRat (x.shownDecimal_digits nonzero) false] at reading
    exact absurd ⟨_, reading⟩ finite

theorem rounded_of_overflows (overflows : Overflows x.shownDecimal.toRat) : x.rounded = x := by
  have nonzero : x.rank ≠ 0 := mt x.isExactInteger_of_zero notInteger
  obtain ⟨negative, past⟩ := overflows
  rw [← x.shownDecimal.nearest_eq_ofRat (x.shownDecimal_digits nonzero) false] at past
  rcases x.rounded_cases with ⟨_, same⟩ | ⟨_, _, y, reading, _⟩ | ⟨_, _, _, same⟩
  · exact same
  · rw [reading] at past
    cases past
  · exact same

end Rounded

/-- A number is shown correctly rounded. An exact integer is shown as it is; what is not
subnormal and does not overflow is shown as its rounding to fifteen digits; and whatever is no
exact integer is read back as the rounded value, which is the number itself where the rounding
overflows. -/
theorem display_correctly_rounded (x : FiniteNumber .double) :
    ∃ shown, display (.finite x) = .ok shown ∧
      (IsSmallInteger x.toRat → Denotes shown x.toRat) ∧
      (¬IsSmallInteger x.toRat → ∃ v, (∀ w, IsRounding 15 x.toRat w ↔ w = v) ∧
        ((2 : Rat) ^ (-1022 : Int) ≤ |x.toRat| → ¬Overflows v → Denotes shown v) ∧
        (Overflows v → x.rounded = x) ∧
        ∃ d : Decimal, Decimal.ofText? shown = some d ∧ d.nearest = Number.finite x.rounded) := by
  refine ⟨_, display_finite x, ?_, ?_⟩
  · rintro ⟨n, value, small⟩
    have shown := display_integer x n value small
    rw [display_finite] at shown
    rw [Except.ok.inj shown, value]
    exact textOfInt_denotes n
  · intro notInteger
    rw [x.isSmallInteger_iff] at notInteger
    have nonzero : x.rank ≠ 0 := mt x.isExactInteger_of_zero notInteger
    rw [x.abs_toRat]
    refine ⟨x.shownDecimal.toRat, x.isRounding_iff nonzero, shown_denotes_rounding x notInteger,
      rounded_of_overflows x notInteger, ?_⟩
    obtain ⟨d, read, nearest⟩ := ofText?_display x
    refine ⟨d, read, ?_⟩
    rw [nearest, FiniteNumber.shownNumber, if_neg (by rwa [FiniteNumber.isZero_iff])]

-- The sum of a tenth and two tenths, and the greatest number, whose rounding overflows.
theorem display_correctly_rounded_sum_greatest :
    (∃ shown, display (.finite (⟨false, 0x3FD3333333333334, by decide⟩ : FiniteNumber .double)) =
      .ok shown ∧ Denotes shown (3 / 10)) ∧
    (⟨false, 0x7FEFFFFFFFFFFFFF, by decide⟩ : FiniteNumber .double).rounded =
      ⟨false, 0x7FEFFFFFFFFFFFFF, by decide⟩ := by
  constructor
  · let x : FiniteNumber .double := ⟨false, 0x3FD3333333333334, by decide⟩
    have notInteger : ¬IsSmallInteger x.toRat := by
      rw [x.isSmallInteger_iff]
      decide +kernel
    have rounding : IsRounding 15 x.toRat (3 / 10) :=
      ⟨-1, 300000000000000, by decide +kernel, by decide +kernel, by decide +kernel,
        by decide +kernel, fun _ => rfl⟩
    have finite : ¬Overflows (3 / 10) := by
      rintro ⟨negative, overflow⟩
      revert overflow
      revert negative
      decide +kernel
    obtain ⟨shown, displayed, _, rounded⟩ := display_correctly_rounded x
    obtain ⟨v, only, exact, _⟩ := rounded notInteger
    rw [← (only _).mp rounding] at exact
    exact ⟨shown, displayed, exact (by decide +kernel) finite⟩
  · let x : FiniteNumber .double := ⟨false, 0x7FEFFFFFFFFFFFFF, by decide⟩
    have notInteger : ¬IsSmallInteger x.toRat := by
      rw [x.isSmallInteger_iff]
      decide +kernel
    have rounding : IsRounding 15 x.toRat (179769313486232 * (10 : Rat) ^ (294 : Int)) :=
      ⟨308, 179769313486232, by decide +kernel, by decide +kernel, by decide +kernel,
        by decide +kernel, fun _ => rfl⟩
    have overflow : Overflows (179769313486232 * (10 : Rat) ^ (294 : Int)) :=
      ⟨false, by decide +kernel⟩
    obtain ⟨_, _, _, rounded⟩ := display_correctly_rounded x
    obtain ⟨v, only, _, past, _⟩ := rounded notInteger
    rw [← (only _).mp rounding] at past
    exact past overflow

end DeskCalculator
