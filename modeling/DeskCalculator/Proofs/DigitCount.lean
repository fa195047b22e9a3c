import DeskCalculator.Proofs.KeptDigits

/-!
How many digits a result is written with. A decimal of few digits that reads back bounds the
digits of the shortest one, wherever the two lie, because a power of ten between the decimal
and the number would be read as the number too. So a result has fifteen digits at most, or
seventeen at most and a digit other than zero before the point.
-/

namespace DeskCalculator

variable {f : BinaryFormat}

namespace Decimal

theorem length_writtenDigits_le (d : Decimal) (count : Nat) (atLeastOne : 1 ≤ count)
    (few : d.digits ≤ 10 ^ count) : d.writtenDigits.length ≤ count := by
  rcases few.eq_or_lt with power | less
  · have same : d.writtenDigits = ['1'] := by
      calc
        d.writtenDigits = (withZeros ⟨false, 1, 0⟩ count).writtenDigits := by
          simp [writtenDigits, withZeros, power]
        _ = (⟨false, 1, 0⟩ : Decimal).writtenDigits := writtenDigits_withZeros _ count (by decide)
        _ = ['1'] := rfl
    simpa [same] using atLeastOne
  · obtain ⟨zeros, split⟩ := d.writtenDigits_split
    have length := (Nat.length_toDigits_le_iff (b := 10) (by decide) atLeastOne).mpr less
    change (digitsOf d.digits).length ≤ count at length
    rw [split, List.length_append] at length
    omega

theorem leading_bounds_of_reads (d : Decimal) (x : FiniteNumber .double) (nonzero : x.rank ≠ 0)
    (reads : d.nearest = Number.finite x) : -999 ≤ d.leading ∧ d.leading ≤ 999 := by
  have limit : BinaryFormat.double.exponentLimit = 1024 := rfl
  have least : BinaryFormat.double.leastExponent = -1074 := rfl
  have notZero (negative : Bool) : (.zero negative : Double) ≠ .finite x := by
    intro zero
    have rank := ((Number.ofMagnitude_eq_finite_iff negative 0 x).mp zero).2
    exact nonzero (rank.symm.trans BinaryFormat.double.nearestRank_zero)
  rw [nearest] at reads
  split at reads
  · exact absurd reads (notZero d.negative)
  · split at reads
    · cases reads
    · split at reads
      · exact absurd reads (notZero d.negative)
      · omega

section Neighbours

variable (x : FiniteNumber f) (count : Nat)

theorem neighbour?_digits (atLeastOne : 1 ≤ count) (nonzero : x.rank ≠ 0) (d : Decimal)
    (found : neighbour? x count = some d) :
    10 ^ (count - 1) ≤ d.digits ∧ d.digits ≤ 10 ^ count := by
  have bounds := digitPlace_bounds count x.magnitude atLeastOne (x.magnitude_pos_iff.mpr nonzero)
  have between := neighbour_bounds x count
  have unit := (ten_pos (digitPlace count x.magnitude)).le
  have low : 10 ^ (count - 1) < (upperNeighbour x count).digits := by
    have reached := lt_of_mul_lt_mul_right (bounds.1.trans_lt between.2) unit
    exact_mod_cast reached
  have high : (lowerNeighbour x count).digits < 10 ^ count := by
    have within := lt_of_mul_lt_mul_right (between.1.trans_lt bounds.2) unit
    exact_mod_cast within
  have next : (upperNeighbour x count).digits = (lowerNeighbour x count).digits + 1 := rfl
  have either : d = lowerNeighbour x count ∨ d = upperNeighbour x count := by
    rw [neighbour?_eq] at found
    split at found
    · split at found <;> simp_all
    all_goals simp_all
  rcases either with rfl | rfl <;> omega

theorem neighbour?_isSome_of_few (atLeastOne : 1 ≤ count) (nonzero : x.rank ≠ 0) (digits : Nat)
    (place : Int) (few : digits ≤ 10 ^ count)
    (reads : f.nearestRank (digits * (10 : Rat) ^ place) = x.rank) :
    (neighbour? x count).isSome = true := by
  have nonneg : 0 ≤ digits * (10 : Rat) ^ place :=
    mul_nonneg (Nat.cast_nonneg _) (ten_pos place).le
  rcases digits_onGrid_or_below count x.magnitude digits place atLeastOne few with
    onGrid | ⟨_, below⟩
  · exact neighbour?_isSome x count _ nonneg onGrid reads
  · -- The power of ten that the number has reached lies between the decimal and the number.
    have reached := (leadingExponent_bounds 10 x.magnitude (by norm_num)
      (x.magnitude_pos_iff.mpr nonzero)).1
    have onGrid := isMultiple_power (digitPlace count x.magnitude)
      (leadingExponent 10 x.magnitude) (by rw [digitPlace]; omega)
    apply neighbour?_isSome x count _ (ten_pos _).le onGrid
    exact f.nearestRank_convex _ _ x.magnitude _ nonneg below (by exact_mod_cast reached) reads
      (f.nearestRank_magnitude x.rank)

end Neighbours

section Shortest

variable (x : FiniteNumber f) (nonzero : x.rank ≠ 0)

include nonzero

theorem length_shortest_le (count : Nat) (atLeastOne : 1 ≤ count)
    (found : (neighbour? x count).isSome = true) :
    (shortest x).writtenDigits.length ≤ count := by
  obtain ⟨least, positive, atMost, here⟩ := shortest_atMost x count atLeastOne nonzero found
  have digits := (neighbour?_digits x least positive nonzero _ here).2
  exact (length_writtenDigits_le _ least positive digits).trans atMost

theorem leadingExponent_le_shortest : leadingExponent 10 x.magnitude ≤ (shortest x).leading := by
  obtain ⟨least, positive, here, _⟩ := shortest_least x nonzero
  have place := (neighbour?_sound x least _ here).2
  have digits := (neighbour?_digits x least positive nonzero _ here).1
  have present : 1 ≤ (shortest x).digits := (Nat.one_le_pow _ _ (by decide)).trans digits
  have upper := (natExponent_bounds 10 (shortest x).digits (by norm_num) present).2
  have exponent := (Nat.pow_lt_pow_iff_right (by norm_num)).mp (digits.trans_lt upper)
  rw [leading, place, digitPlace]
  omega

end Shortest

end Decimal

namespace FiniteNumber

/-- A number whose rounded decimal overflows is no fraction alone. -/
theorem leadingExponent_of_overflow (x : FiniteNumber .double) (nonzero : x.rank ≠ 0)
    (overflows : (x.shownDecimal.nearest : Double) = .infinity x.negative) :
    0 ≤ leadingExponent 10 x.magnitude := by
  have positive := x.magnitude_pos_iff.mpr nonzero
  by_contra small
  have bounds := digitPlace_bounds shownDigits x.magnitude (by decide) positive
  have digits := Decimal.significant_digits shownDigits x.negative x.magnitude (by decide) positive
  have one : x.shownDecimal.magnitude ≤ 179769313486231 * (10 : Rat) ^ (294 : Int) := by
    calc
      x.shownDecimal.magnitude ≤
          (10 : Rat) ^ shownDigits * (10 : Rat) ^ digitPlace shownDigits x.magnitude :=
        mul_le_mul_of_nonneg_right (by exact_mod_cast digits.2.1) (ten_pos _).le
      _ = (10 : Rat) ^ (leadingExponent 10 x.magnitude + 1) := by
        rw [← zpow_natCast, ← zpow_add₀ (by norm_num), digitPlace]
        congr 1
        simp only [shownDigits]
        omega
      _ ≤ (10 : Rat) ^ (0 : Int) := zpow_le_zpow_right₀ (by norm_num) (by omega)
      _ ≤ 179769313486231 * (10 : Rat) ^ (294 : Int) := by
        rw [zpow_zero]
        exact one_le_mul_of_one_le_of_one_le (by norm_num)
          (one_le_zpow₀ (by norm_num) (by norm_num))
  have inside := nearestRank_lt_infinityRank _ (Decimal.magnitude_nonneg _) one
  rw [Decimal.nearest_eq_ofMagnitude, Number.ofMagnitude, dif_pos inside] at overflows
  cases overflows

/-- A result has fifteen digits at most, or has reached the units and has seventeen at most. -/
theorem digits_shown (x : FiniteNumber .double) (nonzero : x.rank ≠ 0) :
    (Decimal.shortest x.rounded).writtenDigits.length ≤ 15 ∨
      (Decimal.shortest x.rounded).writtenDigits.length ≤ 17 ∧
        0 ≤ (Decimal.shortest x.rounded).leading := by
  have kept := x.rounded_nonzero nonzero
  rcases x.rounded_cases with ⟨exact, same⟩ | ⟨_, _, y, reading, same⟩ | ⟨_, _, past, same⟩
  · right
    obtain ⟨n, value, small⟩ := x.isExactInteger_iff.mp exact
    have positive := x.magnitude_pos_iff.mpr nonzero
    have reads : BinaryFormat.double.nearestRank (n * (10 : Rat) ^ (0 : Int)) = x.rank := by
      rw [zpow_zero, mul_one, ← value]
      exact BinaryFormat.double.nearestRank_magnitude x.rank
    have few : n ≤ 10 ^ 16 := small.trans (by decide)
    have found := Decimal.neighbour?_isSome_of_few x 16 (by norm_num) nonzero n 0 few reads
    have units : 0 ≤ leadingExponent 10 x.magnitude := by
      rw [leadingExponent_le_iff 10 x.magnitude (by norm_num) positive, zpow_zero, value]
      rw [value] at positive
      exact_mod_cast positive
    rw [same]
    exact ⟨(Decimal.length_shortest_le x nonzero 16 (by norm_num) found).trans (by norm_num),
      units.trans (Decimal.leadingExponent_le_shortest x nonzero)⟩
  · left
    rw [same] at kept ⊢
    have reads := ((Decimal.nearest_eq_finite_iff _ y).mp reading).2
    have few := (Decimal.significant_digits shownDigits x.negative x.magnitude (by decide)
      (x.magnitude_pos_iff.mpr nonzero)).2.1
    have found := Decimal.neighbour?_isSome_of_few y 15 (by norm_num) kept _ _ few reads
    exact Decimal.length_shortest_le y kept 15 (by norm_num) found
  · right
    have units := x.leadingExponent_of_overflow nonzero past
    have finest : Decimal.finestCount .double = 17 := by decide
    have found := Decimal.neighbour?_finest x nonzero
    rw [same, ← finest]
    exact ⟨Decimal.length_shortest_le x nonzero _ (by rw [finest]; norm_num) found,
      units.trans (Decimal.leadingExponent_le_shortest x nonzero)⟩

end FiniteNumber

end DeskCalculator
