import DeskCalculator.Proofs.RoundedResult

/-!
Decimals of no more digits than are shown, and exact integers. Such a decimal that is not
subnormal is the rounded decimal and the shortest decimal of the number it is read as, so it
is shown as it was written. An integer up to two binades is a value of the format, and no
other integer that is shorter reads as the same.
-/

namespace DeskCalculator

/-- A decimal this large is read with an error below half its last place, and so is found on
the grid of what it is read as. -/
structure ReadsDigits (digits : Nat) (place : Int) (y : FiniteNumber .double) : Prop where
  few : digits ≤ 10 ^ shownDigits
  large : (10 : Rat) ^ (-308 : Int) ≤ digits * (10 : Rat) ^ place
  reads : BinaryFormat.double.nearestRank (digits * (10 : Rat) ^ place) = y.rank

namespace ReadsDigits

variable {digits : Nat} {place : Int} {y : FiniteNumber .double}

theorem nonneg : 0 ≤ digits * (10 : Rat) ^ place :=
  mul_nonneg (Nat.cast_nonneg _) (ten_pos place).le

theorem place_coarse (decimal : ReadsDigits digits place y) : -323 ≤ place := by
  have few : (digits : Rat) ≤ (10 : Rat) ^ (15 : Int) := by exact_mod_cast decimal.few
  have reached : (10 : Rat) ^ (-308 : Int) ≤ (10 : Rat) ^ (15 + place) := by
    rw [zpow_add₀ (by norm_num)]
    exact decimal.large.trans (mul_le_mul_of_nonneg_right few (ten_pos place).le)
  have ordered := (zpow_le_zpow_iff_right₀ (by norm_num)).mp reached
  omega

theorem near_place (decimal : ReadsDigits digits place y) :
    |y.magnitude - digits * (10 : Rat) ^ place| < (10 : Rat) ^ place / 2 := by
  have near := near_of_digits .double shownDigits digits place shownDigits_fits decimal.few
    (leastPositive_lt_power place decimal.place_coarse)
  rw [decimal.reads] at near
  exact near

theorem half_le (decimal : ReadsDigits digits place y) :
    digits * (10 : Rat) ^ place / 2 ≤ y.magnitude := by
  have near := (abs_lt.mp decimal.near_place).1
  have present : (1 : Rat) ≤ digits := by
    by_contra absent
    have zero : digits = 0 := by
      by_contra nonzero
      exact absent (by exact_mod_cast Nat.pos_of_ne_zero nonzero)
    have large := decimal.large
    rw [zero, Nat.cast_zero, zero_mul] at large
    linarith [ten_pos (-308)]
  nlinarith [ten_pos place]

theorem positive (decimal : ReadsDigits digits place y) : 0 < y.magnitude := by
  have large := decimal.large
  have half := decimal.half_le
  linarith [ten_pos (-308)]

theorem nonzero (decimal : ReadsDigits digits place y) : y.rank ≠ 0 :=
  y.magnitude_pos_iff.mp decimal.positive

theorem digitPlace_coarse (decimal : ReadsDigits digits place y) :
    -323 ≤ digitPlace shownDigits y.magnitude := by
  have reached : ((10 : Nat) : Rat) ^ (-309 : Int) ≤ y.magnitude := by
    have tenth : (10 : Rat) ^ (-309 : Int) = (10 : Rat) ^ (-308 : Int) / 10 := by
      rw [show (-309 : Int) = -308 - 1 by norm_num, zpow_sub_one₀ (by norm_num), div_eq_mul_inv]
    have half := decimal.half_le
    have large := decimal.large
    rw [Nat.cast_ofNat, tenth]
    linarith [ten_pos (-308)]
  have leading :=
    (leadingExponent_le_iff 10 y.magnitude (by norm_num) decimal.positive _).mpr reached
  rw [digitPlace, shownDigits]
  omega

theorem onGrid (decimal : ReadsDigits digits place y) :
    IsMultiple (digitPlace shownDigits y.magnitude) (digits * (10 : Rat) ^ place) := by
  apply digits_onGrid shownDigits _ digits place (by decide) decimal.positive decimal.few
  have near := decimal.near_place
  linarith [ten_pos place]

/-- Whatever is read as the number is within half the unit of its grid. -/
theorem near (decimal : ReadsDigits digits place y) (v : Rat) (nonneg : 0 ≤ v)
    (reads : BinaryFormat.double.nearestRank v = y.rank) :
    |y.magnitude - v| < (10 : Rat) ^ digitPlace shownDigits y.magnitude / 2 :=
  near_of_reads _ shownDigits v y.rank (by decide) shownDigits_fits nonneg decimal.nonzero reads
    (leastPositive_lt_power _ decimal.digitPlace_coarse)

theorem significant_magnitude (decimal : ReadsDigits digits place y) (negative : Bool) :
    (Decimal.significant shownDigits negative y.magnitude).magnitude =
      digits * (10 : Rat) ^ place :=
  Decimal.significant_of_near shownDigits negative y.magnitude _ (by decide) decimal.positive
    decimal.onGrid (decimal.near _ nonneg decimal.reads)

theorem rounded (decimal : ReadsDigits digits place y) : y.rounded = y := by
  apply y.rounded_of_reads
  rw [FiniteNumber.shownDecimal, decimal.significant_magnitude]
  exact decimal.reads

theorem shortest_magnitude (decimal : ReadsDigits digits place y) :
    (Decimal.shortest y).magnitude = digits * (10 : Rat) ^ place := by
  have shortestReads := Decimal.shortest_reads y decimal.nonzero
  have found := Decimal.neighbour?_isSome y shownDigits _ nonneg decimal.onGrid decimal.reads
  have coarser := Decimal.digitPlace_le_shortest y shownDigits (by decide) decimal.nonzero found
  have shortestNear := decimal.near _ (Decimal.magnitude_nonneg _) shortestReads.2
  have decimalNear := decimal.near _ nonneg decimal.reads
  apply IsMultiple.eq_of_close ((Decimal.isMultiple_magnitude _).finer coarser) decimal.onGrid
  have apart := abs_sub_le (Decimal.shortest y).magnitude y.magnitude (digits * (10 : Rat) ^ place)
  rw [abs_sub_comm] at shortestNear
  linarith

end ReadsDigits

/-- Up to two binades every integer is a value of a format that is fine enough. -/
theorem BinaryFormat.exists_rank_of_integer (f : BinaryFormat) (n : Nat)
    (deep : f.leastExponent ≤ -f.fractionBits) (positive : 0 < n) (small : n ≤ 2 * f.binade) :
    ∃ rank, f.magnitude rank = n := by
  have low := Nat.log2_self_le positive.ne'
  have high := Nat.lt_log2_self (n := n)
  -- The integer is shifted until its leading digit stands where a significand has it.
  let shift := f.fractionBits - n.log2
  let place := (-f.leastExponent).toNat - shift
  have total : shift + place = (-f.leastExponent).toNat := by omega
  have bounds : f.binade ≤ n * 2 ^ shift ∧ n * 2 ^ shift ≤ 2 * f.binade := by
    by_cases inside : n.log2 ≤ f.fractionBits
    · have split : f.fractionBits = n.log2 + shift := by omega
      rw [f.binade_eq, split, Nat.pow_add, ← Nat.mul_assoc, ← Nat.pow_succ']
      exact ⟨Nat.mul_le_mul_right _ low, Nat.mul_le_mul_right _ high.le⟩
    · have unshifted : shift = 0 := by omega
      rw [unshifted, Nat.pow_zero, Nat.mul_one]
      refine ⟨?_, small⟩
      rw [f.binade_eq]
      exact (Nat.pow_le_pow_right (by norm_num) (by omega)).trans low
  refine ⟨place * f.binade + n * 2 ^ shift, ?_⟩
  rw [magnitude, f.units_place place _ bounds.2 (Or.inr bounds.1), Nat.mul_assoc,
    ← Nat.pow_add, total, leastPositive]
  push_cast
  rw [mul_assoc, ← zpow_natCast, ← zpow_add₀ (by norm_num),
    Int.toNat_of_nonneg (by omega), neg_add_cancel, zpow_zero, mul_one]

theorem FiniteNumber.isExactInteger_iff {f : BinaryFormat} (x : FiniteNumber f) :
    x.isExactInteger = true ↔ ∃ n : Nat, x.magnitude = n ∧ n ≤ 2 * f.binade := by
  rw [isExactInteger, Bool.and_eq_true, decide_eq_true_eq]
  constructor
  · rintro ⟨whole, small⟩
    have den : x.magnitude.den = 1 := by simpa [Rat.isInt] using whole
    have nonneg : 0 ≤ x.magnitude.num := Rat.num_nonneg.mpr x.magnitude_nonneg
    have value : x.magnitude = x.magnitude.num.toNat := by
      have natural : ((x.magnitude.num.toNat : Nat) : Rat) = x.magnitude.num := by
        exact_mod_cast Int.toNat_of_nonneg nonneg
      rw [natural]
      exact (Rat.den_eq_one_iff _).mp den |>.symm
    refine ⟨_, value, ?_⟩
    rw [value] at small
    exact_mod_cast small
  · rintro ⟨n, value, small⟩
    rw [value]
    exact ⟨rfl, by exact_mod_cast small⟩

/-- A multiple of ten that is read as an exact integer is that integer. -/
theorem ten_multiple_of_integer (n : Nat) (m : Int) (rank : Nat)
    (value : BinaryFormat.double.magnitude rank = n) (small : n ≤ 2 * BinaryFormat.double.binade)
    (nonneg : (0 : Rat) ≤ (10 * m : Int))
    (reads : BinaryFormat.double.nearestRank (10 * m : Int) = rank) : 10 * m = n := by
  have binade : (BinaryFormat.double.binade : Rat) = 4503599627370496 := by norm_cast
  have least := leastPositive_lt_power 0 (by norm_num)
  have error := BinaryFormat.double.nearestRank_error _ nonneg
  rw [reads, value, binade] at error
  rw [zpow_zero] at least
  change n ≤ 2 * 4503599627370496 at small
  rcases small.eq_or_lt with last | inside
  · -- The neighbours of the last exact integer are no multiples of ten.
    have close : |(n : Rat) - (10 * m : Int)| ≤ 1 := by
      have bound : max (n : Rat) (BinaryFormat.double.leastPositive * 4503599627370496) ≤
          2 * 4503599627370496 :=
        max_le (by exact_mod_cast small) (by linarith)
      linarith
    have apart : |(n : Int) - 10 * m| ≤ 1 := by exact_mod_cast close
    rw [abs_le] at apart
    omega
  · have close : |((n : Int) : Rat) - (10 * m : Int)| < 1 := by
      have bound : max (n : Rat) (BinaryFormat.double.leastPositive * 4503599627370496) <
          2 * 4503599627370496 :=
        max_lt (by exact_mod_cast inside) (by linarith)
      rw [Int.cast_natCast]
      linarith
    exact (int_eq_of_close _ _ close).symm

/-- The shortest decimal of an integer ends at the units or before them: the grid of all the
digits of the integer holds it. -/
theorem Decimal.shortest_exponent_nonneg (y : FiniteNumber .double) (n : Nat)
    (value : y.magnitude = n) (positive : 0 < n) : 0 ≤ (shortest y).exponent := by
  have one : (1 : Rat) ≤ y.magnitude := by
    rw [value]
    exact_mod_cast positive
  have magnitudePositive : 0 < y.magnitude := by linarith
  have leading : 0 ≤ leadingExponent 10 y.magnitude :=
    (leadingExponent_le_iff 10 y.magnitude (by norm_num) magnitudePositive 0).mpr
      (by simpa using one)
  let count := (leadingExponent 10 y.magnitude).toNat + 1
  have units : digitPlace count y.magnitude = 0 := by
    rw [digitPlace]
    omega
  have onGrid : IsMultiple (digitPlace count y.magnitude) y.magnitude := by
    rw [units, value]
    exact ⟨n, by simp⟩
  obtain ⟨d, here, _⟩ := neighbour?_exact y count onGrid
  have bound := digitPlace_le_shortest y count (Nat.le_add_left 1 _)
    (y.magnitude_pos_iff.mp magnitudePositive) (by rw [here]; rfl)
  rwa [units] at bound

theorem Decimal.shortest_of_integer (y : FiniteNumber .double) (n : Nat)
    (value : y.magnitude = n) (positive : 0 < n) (small : n ≤ 2 * BinaryFormat.double.binade) :
    (shortest y).magnitude = n := by
  have nonzero : y.rank ≠ 0 := by
    rw [← y.magnitude_pos_iff, value]
    exact_mod_cast positive
  obtain ⟨count, _, found, _⟩ := shortest_least y nonzero
  have sound := neighbour?_sound y count _ found
  rcases (shortest_exponent_nonneg y n value positive).eq_or_lt with single | coarser
  · obtain ⟨d, here, same⟩ := neighbour?_exact y count (by
      rw [← sound.2, ← single, value]
      exact ⟨n, by simp⟩)
    rw [found] at here
    cases here
    rw [same, value]
  · obtain ⟨m, multiple⟩ := (isMultiple_magnitude (shortest y)).finer
      (show 1 ≤ (shortest y).exponent by omega)
    have asInteger : (shortest y).magnitude = (10 * m : Int) := by
      rw [multiple]
      push_cast
      ring
    have reads := ((readsAs_iff _ y).mp sound.1).2
    have nonneg := (shortest y).magnitude_nonneg
    rw [asInteger] at reads nonneg ⊢
    exact_mod_cast ten_multiple_of_integer n m y.rank value small nonneg reads

end DeskCalculator
