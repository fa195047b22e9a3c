import DeskCalculator.Proofs.CorrectRounding

/-!
Results in order. Rounding to a count of digits, reading and the search for the shortest decimal
each keep the order, and where only one of two roundings overflows, that number lies beyond what
the other is rounded to. So two numbers that are both rounded are shown in their order, and so
are two exact integers, which are shown as they are.
-/

namespace DeskCalculator

variable {f : BinaryFormat}

namespace Decimal

section Significant

variable (count : Nat) (left right : Bool) (q r : Rat)

theorem significant_mono (atLeastOne : 1 ≤ count) (positive : 0 < q) (ordered : q ≤ r) :
    (significant count left q).magnitude ≤ (significant count right r).magnitude := by
  have positiveRight := positive.trans_le ordered
  have low := significant_bounds count left q atLeastOne positive
  have high := significant_bounds count right r atLeastOne positiveRight
  have reached : leadingExponent 10 q ≤ leadingExponent 10 r := by
    apply (leadingExponent_le_iff 10 r (by norm_num) positiveRight _).mpr
    exact (leadingExponent_bounds 10 q (by norm_num) positive).1.trans ordered
  rcases reached.eq_or_lt with same | less
  · have place : digitPlace count q = digitPlace count r := by rw [digitPlace, digitPlace, same]
    rw [significant_magnitude count left q atLeastOne positive,
      significant_magnitude count right r atLeastOne positiveRight, place]
    have unit := ten_pos (digitPlace count r)
    apply mul_le_mul_of_nonneg_right _ unit.le
    exact_mod_cast halfEven_mono _ _ (div_le_div_of_nonneg_right ordered (by positivity))
  · calc
      (significant count left q).magnitude ≤ (10 : Rat) ^ (leadingExponent 10 q + 1) := low.2
      _ ≤ (10 : Rat) ^ leadingExponent 10 r := zpow_le_zpow_right₀ (by norm_num) less
      _ ≤ (significant count right r).magnitude := high.1

theorem significant_significant (atLeastOne : 1 ≤ count) (positive : 0 < q) :
    (significant count left (significant count right q).magnitude).magnitude =
      (significant count right q).magnitude := by
  have digits := significant_digits count right q atLeastOne positive
  have rounded : 0 < (significant count right q).magnitude :=
    (ten_pos _).trans_le (significant_bounds count right q atLeastOne positive).1
  apply significant_of_near count left _ _ atLeastOne rounded
  · apply digits_onGrid count _ _ _ atLeastOne rounded digits.2.1
    rw [magnitude, sub_self, abs_zero]
    exact ten_pos _
  · rw [sub_self, abs_zero]
    exact half_pos (ten_pos _)

end Significant

end Decimal

namespace FiniteNumber

/-- A number that is no exact integer is rounded to what its decimal is read as, or, where that
is past the greatest value, left as it is. -/
theorem rounded_rank_cases (x : FiniteNumber f) (notInteger : x.isExactInteger ≠ true) :
    (f.nearestRank x.shownDecimal.magnitude < f.infinityRank ∧
      x.rounded.rank = f.nearestRank x.shownDecimal.magnitude) ∨
    (f.infinityRank ≤ f.nearestRank x.shownDecimal.magnitude ∧ x.rounded = x) := by
  have reading := x.shownDecimal.nearest_eq_ofMagnitude (f := f)
  rw [rounded_eq, if_neg notInteger, reading, Number.ofMagnitude]
  by_cases bounded : f.nearestRank x.shownDecimal.magnitude < f.infinityRank
  · rw [dif_pos bounded]
    exact Or.inl ⟨bounded, rfl⟩
  · rw [dif_neg bounded]
    exact Or.inr ⟨not_lt.mp bounded, rfl⟩

section Order

variable (x y : FiniteNumber f)

theorem rank_le_iff : x.rank ≤ y.rank ↔ x.magnitude ≤ y.magnitude :=
  f.magnitude_strictMono.le_iff_le.symm

theorem shownDecimal_mono (nonzero : x.rank ≠ 0) (ordered : x.rank ≤ y.rank) :
    x.shownDecimal.magnitude ≤ y.shownDecimal.magnitude :=
  Decimal.significant_mono shownDigits x.negative y.negative _ _ (by decide)
    (x.magnitude_pos_iff.mpr nonzero) ((x.rank_le_iff y).mp ordered)

theorem rounded_mono (leftRounded : x.isExactInteger ≠ true)
    (rightRounded : y.isExactInteger ≠ true) (ordered : x.rank ≤ y.rank) :
    x.rounded.rank ≤ y.rounded.rank := by
  have nonzero : x.rank ≠ 0 := mt x.isExactInteger_of_zero leftRounded
  have decimals := x.shownDecimal_mono y nonzero ordered
  have nonneg := x.shownDecimal.magnitude_nonneg
  have ranks := f.nearestRank_mono _ _ nonneg decimals
  rcases x.rounded_rank_cases leftRounded with ⟨leftFits, left⟩ | ⟨leftPast, left⟩
  · rcases y.rounded_rank_cases rightRounded with ⟨_, right⟩ | ⟨rightPast, right⟩
    · rw [left, right]
      exact ranks
    · -- Only the greater one overflows. Were it no greater than what the other is rounded to,
      -- it would be rounded to no more than that.
      have beyond : x.shownDecimal.magnitude ≤ y.magnitude := by
        by_contra within
        have positive := y.magnitude_pos_iff.mpr
          (Nat.ne_of_gt (Nat.lt_of_lt_of_le (Nat.pos_of_ne_zero nonzero) ordered))
        have back := Decimal.significant_mono shownDigits y.negative x.negative _ _ (by decide)
          positive (le_of_not_ge within)
        rw [shownDecimal, Decimal.significant_significant shownDigits x.negative x.negative _
          (by decide) (x.magnitude_pos_iff.mpr nonzero)] at back
        have fits := f.nearestRank_mono _ _ y.shownDecimal.magnitude_nonneg back
        exact absurd (rightPast.trans fits) (not_le.mpr leftFits)
      rw [left, right, ← f.nearestRank_magnitude y.rank]
      exact f.nearestRank_mono _ _ nonneg beyond
  · rcases y.rounded_rank_cases rightRounded with ⟨rightFits, _⟩ | ⟨_, right⟩
    · omega
    · rw [left, right]
      exact ordered

theorem shortest_mono (nonzero : x.rank ≠ 0) (sign : x.negative = y.negative)
    (ordered : x.rank ≤ y.rank) :
    (Decimal.shortest x).magnitude ≤ (Decimal.shortest y).magnitude := by
  have left := Decimal.shortest_reads x nonzero
  rcases ordered.eq_or_lt with same | less
  · have equal : x = y := by
      cases x
      cases y
      rw [mk.injEq]
      exact ⟨sign, same⟩
    rw [equal]
  · have right := Decimal.shortest_reads y (Nat.ne_of_gt (Nat.zero_lt_of_lt less))
    by_contra greater
    have back := f.nearestRank_mono _ _ (Decimal.magnitude_nonneg _) (le_of_not_ge greater)
    rw [left.2, right.2] at back
    exact absurd less (not_lt.mpr back)

theorem shown_magnitude_mono (leftRounded : x.isExactInteger ≠ true)
    (rightRounded : y.isExactInteger ≠ true) (sign : x.negative = y.negative)
    (ordered : x.rank ≤ y.rank) :
    x.rounded.toDecimal.magnitude ≤ y.rounded.toDecimal.magnitude := by
  have left := x.rounded_nonzero (mt x.isExactInteger_of_zero leftRounded)
  have right := y.rounded_nonzero (mt y.isExactInteger_of_zero rightRounded)
  rw [toDecimal_of_nonzero _ left, toDecimal_of_nonzero _ right]
  apply x.rounded.shortest_mono y.rounded left
  · rw [x.rounded_negative, y.rounded_negative, sign]
  · exact x.rounded_mono y leftRounded rightRounded ordered

theorem shown_toRat (nonzero : x.rank ≠ 0) :
    x.rounded.toDecimal.toRat =
      if x.negative then -x.rounded.toDecimal.magnitude else x.rounded.toDecimal.magnitude := by
  rw [Decimal.toRat, (x.rounded_toDecimal nonzero).2]

theorem shown_mono (leftRounded : x.isExactInteger ≠ true)
    (rightRounded : y.isExactInteger ≠ true) (ordered : x.toRat ≤ y.toRat) :
    x.rounded.toDecimal.toRat ≤ y.rounded.toDecimal.toRat := by
  have left : x.rank ≠ 0 := mt x.isExactInteger_of_zero leftRounded
  have right : y.rank ≠ 0 := mt y.isExactInteger_of_zero rightRounded
  have leftShown := x.rounded.toDecimal.magnitude_nonneg
  have rightShown := y.rounded.toDecimal.magnitude_nonneg
  have magnitudes := x.shown_magnitude_mono y leftRounded rightRounded
  have opposite := y.shown_magnitude_mono x rightRounded leftRounded
  rw [x.shown_toRat left, y.shown_toRat right]
  rw [toRat, toRat] at ordered
  cases leftSign : x.negative with
  | false =>
      cases rightSign : y.negative with
      | false =>
          rw [leftSign, rightSign] at ordered magnitudes
          exact magnitudes rfl ((x.rank_le_iff y).mpr ordered)
      | true =>
          -- A positive number is no less than a negative one.
          rw [leftSign, rightSign] at ordered
          have positive := x.magnitude_pos_iff.mpr left
          have nonneg := y.magnitude_nonneg
          simp only [Bool.false_eq_true, if_false, if_true] at ordered
          linarith
  | true =>
      cases rightSign : y.negative with
      | false =>
          simp only [Bool.false_eq_true, if_false, if_true]
          linarith
      | true =>
          rw [leftSign, rightSign] at ordered opposite
          exact neg_le_neg (opposite rfl ((y.rank_le_iff x).mpr (neg_le_neg_iff.mp ordered)))

end Order

end FiniteNumber

/-- Two small integers are shown in their order, and so are two numbers of which neither is one.
Between a small integer and another number the order may be lost, as only the other is rounded. -/
theorem display_ordered (x y : FiniteNumber .double) (ordered : x.toRat ≤ y.toRat)
    (alike : IsSmallInteger x.toRat ↔ IsSmallInteger y.toRat) :
    ∃ left right v w, display (.finite x) = .ok left ∧ display (.finite y) = .ok right ∧
      Denotes left v ∧ Denotes right w ∧ v ≤ w := by
  by_cases integer : IsSmallInteger x.toRat
  · obtain ⟨n, value, small⟩ := integer
    obtain ⟨m, other, bound⟩ := alike.mp ⟨n, value, small⟩
    exact ⟨_, _, x.toRat, y.toRat, display_integer x n value small,
      display_integer y m other bound, value ▸ textOfInt_denotes n, other ▸ textOfInt_denotes m,
      ordered⟩
  · have leftRounded := mt x.isSmallInteger_iff.mpr integer
    have rightRounded := mt y.isSmallInteger_iff.mpr (mt alike.mpr integer)
    exact ⟨_, _, _, _, display_finite x, display_finite y, Decimal.text_denotes _,
      Decimal.text_denotes _, x.shown_mono y leftRounded rightRounded ordered⟩

-- Two neighbours near the greatest value, of which only the second one's rounding overflows.
theorem display_ordered_overflow :
    ∃ left right v w,
      display (.finite (⟨false, 0x7FEFFFFFFFFFFFFB, by decide⟩ : FiniteNumber .double)) =
        .ok left ∧
      display (.finite (⟨false, 0x7FEFFFFFFFFFFFFC, by decide⟩ : FiniteNumber .double)) =
        .ok right ∧
      Denotes left v ∧ Denotes right w ∧ v ≤ w := by
  let x : FiniteNumber .double := ⟨false, 0x7FEFFFFFFFFFFFFB, by decide⟩
  let y : FiniteNumber .double := ⟨false, 0x7FEFFFFFFFFFFFFC, by decide⟩
  have ordered : x.toRat ≤ y.toRat := (x.rank_le_iff y).mp (by decide)
  have integers : x.isExactInteger = false ∧ y.isExactInteger = false := by decide +kernel
  apply display_ordered x y ordered
  rw [x.isSmallInteger_iff, y.isSmallInteger_iff, integers.1, integers.2]

end DeskCalculator
