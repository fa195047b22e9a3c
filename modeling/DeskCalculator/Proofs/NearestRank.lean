import DeskCalculator.Proofs.RankSpacing

/-!
Rounding to a rank. The rank of a rational lies between the two midpoints around it, which is
all that is known of the rounding here and all that is used: it keeps the order, gives the
values of the format back, and moves a rational by half a gap at most.
-/

namespace DeskCalculator

theorem nearestMultiple_error (base : Nat) (place : Int) (q : Rat) (positive : 0 < base) :
    |(nearestMultiple base place q : Rat) * (base : Rat) ^ place - q| ≤
      (base : Rat) ^ place / 2 := by
  have power : (0 : Rat) < (base : Rat) ^ place := zpow_pos (by exact_mod_cast positive) _
  have error := halfEven_error (q / (base : Rat) ^ place)
  have scaled : (nearestMultiple base place q : Rat) * (base : Rat) ^ place - q =
      ((halfEven (q / (base : Rat) ^ place) : Rat) - q / (base : Rat) ^ place) *
        (base : Rat) ^ place := by
    rw [sub_mul, div_mul_cancel₀ q power.ne', nearestMultiple]
  rw [scaled, abs_mul, abs_of_pos power]
  linarith [mul_le_mul_of_nonneg_right error power.le]

namespace BinaryFormat

variable (f : BinaryFormat)

def roundingPlace (q : Rat) : Nat :=
  (leadingExponent 2 (q / f.leastPositive) - f.fractionBits).toNat

def scaled (q : Rat) : Rat := q / f.leastPositive / 2 ^ f.roundingPlace q

theorem scaled_mul (q : Rat) : f.scaled q * (2 ^ f.roundingPlace q * f.leastPositive) = q := by
  have least := f.leastPositive_pos
  rw [scaled]
  field_simp

theorem nearestRank_eq (q : Rat) (positive : 0 < q) :
    f.nearestRank q = f.roundingPlace q * f.binade + (halfEven (f.scaled q)).toNat := by
  rw [nearestRank, if_neg positive.ne', scaled]
  simp only [nearestMultiple, zpow_natCast]
  rfl

/-- Counted in its unit a rational has two binades at most, and one at least unless there is
no finer place. -/
theorem scaled_bounds (q : Rat) (positive : 0 < q) :
    f.scaled q < 2 * f.binade ∧ (f.roundingPlace q = 0 ∨ (f.binade : Rat) ≤ f.scaled q) := by
  have unitsPositive : 0 < q / f.leastPositive := div_pos positive f.leastPositive_pos
  have bounds := leadingExponent_bounds 2 (q / f.leastPositive) (by norm_num) unitsPositive
  have power : (0 : Rat) < 2 ^ f.roundingPlace q := by positivity
  have place : f.roundingPlace q =
      (leadingExponent 2 (q / f.leastPositive) - f.fractionBits).toNat := rfl
  generalize leadingExponent 2 (q / f.leastPositive) = leading at bounds place
  rw [scaled, div_lt_iff₀ power, le_div_iff₀ power, binade_eq]
  constructor
  · calc
      q / f.leastPositive < (2 : Rat) ^ (leading + 1) := by simpa using bounds.2
      _ ≤ (2 : Rat) ^ ((1 + f.fractionBits + f.roundingPlace q : Nat) : Int) :=
        zpow_le_zpow_right₀ (by norm_num) (by omega)
      _ = 2 * (2 ^ f.fractionBits : Nat) * 2 ^ f.roundingPlace q := by
        rw [zpow_natCast, pow_add, pow_add]
        push_cast
        ring
  · by_cases finest : f.roundingPlace q = 0
    · exact Or.inl finest
    · right
      calc
        ((2 ^ f.fractionBits : Nat) : Rat) * 2 ^ f.roundingPlace q =
            (2 : Rat) ^ ((f.fractionBits + f.roundingPlace q : Nat) : Int) := by
          rw [zpow_natCast, pow_add]
          push_cast
          ring
        _ = (2 : Rat) ^ leading := by
          congr 1
          omega
        _ ≤ q / f.leastPositive := by simpa using bounds.1

/-- The place and the significand that a positive rational is rounded to. -/
theorem nearestRank_place (q : Rat) (positive : 0 < q) :
    ∃ place digits : Nat, f.nearestRank q = place * f.binade + digits ∧
      digits ≤ 2 * f.binade ∧ (place = 0 ∨ f.binade ≤ digits) ∧
      |(digits : Rat) * (2 ^ place * f.leastPositive) - q| ≤ 2 ^ place * f.leastPositive / 2 ∧
      (place = 0 ∨ f.binade * (2 ^ place * f.leastPositive) ≤ q) := by
  have unit : 0 < 2 ^ f.roundingPlace q * f.leastPositive :=
    mul_pos (by positivity) f.leastPositive_pos
  have bounds := f.scaled_bounds q positive
  have nonneg : 0 ≤ f.scaled q := by
    rw [scaled]
    have least := f.leastPositive_pos
    positivity
  have digitsNonneg : 0 ≤ halfEven (f.scaled q) := le_halfEven 0 _ (by simpa using nonneg)
  have natural : (((halfEven (f.scaled q)).toNat : Nat) : Rat) = halfEven (f.scaled q) := by
    exact_mod_cast Int.toNat_of_nonneg digitsNonneg
  have digitsUpper : halfEven (f.scaled q) ≤ (2 * f.binade : Nat) := by
    apply halfEven_le
    push_cast
    exact bounds.1.le
  have digitsLower (reached : (f.binade : Rat) ≤ f.scaled q) :
      (f.binade : Int) ≤ halfEven (f.scaled q) := by
    apply le_halfEven
    exact_mod_cast reached
  refine ⟨f.roundingPlace q, (halfEven (f.scaled q)).toNat, f.nearestRank_eq q positive,
    by omega, ?_, ?_, ?_⟩
  · exact bounds.2.imp_right fun reached => by
      have lower := digitsLower reached
      omega
  · have error := mul_le_mul_of_nonneg_right (halfEven_error (f.scaled q)) unit.le
    rw [← abs_of_pos unit, ← abs_mul, sub_mul, abs_of_pos unit, f.scaled_mul] at error
    rw [natural]
    linarith
  · refine bounds.2.imp_right fun reached => ?_
    have scaledUp := mul_le_mul_of_nonneg_right reached unit.le
    rwa [f.scaled_mul] at scaledUp

theorem nearestRank_between (q : Rat) (nonneg : 0 ≤ q) :
    q ≤ f.midpoint (f.nearestRank q) ∧
      ∀ rank, f.nearestRank q = rank + 1 → f.midpoint rank ≤ q := by
  rcases nonneg.eq_or_lt with rfl | positive
  · rw [nearestRank_zero]
    refine ⟨(f.magnitude_nonneg 0).trans (f.midpoint_bounds 0).1.le, ?_⟩
    intro rank impossible
    omega
  · obtain ⟨place, digits, split, small, large, error, reached⟩ :=
      f.nearestRank_place q positive
    have value : f.magnitude (place * f.binade + digits) =
        digits * (2 ^ place * f.leastPositive) := by
      rw [magnitude, f.units_place place digits small large]
      push_cast
      ring
    rw [abs_le] at error
    rw [split]
    constructor
    · have wide := f.unit_le_gap place digits small large
      rw [midpoint, value]
      linarith
    · intro rank next
      -- Either the rank before is in the same place, or the value opens its place and the
      -- rational, which has reached that place, lies above it.
      by_cases inside : 1 ≤ digits ∧ (place = 0 ∨ f.binade ≤ digits - 1)
      · have before : rank = place * f.binade + (digits - 1) := by omega
        have gapBefore : f.gap rank = 2 ^ place * f.leastPositive := by
          rw [gap, before, f.step_place place (digits - 1) (by omega) inside.2]
          push_cast
          rfl
        have successor := f.magnitude_succ rank
        rw [← next, value, gapBefore] at successor
        rw [midpoint, gapBefore]
        linarith
      · have later : place ≠ 0 := by
          rintro rfl
          omega
        have opens : digits = f.binade := by
          have positiveBinade := f.binade_pos
          omega
        have bound := reached.resolve_left later
        rw [next, opens] at value
        exact (f.midpoint_bounds rank).2.le.trans (value.trans_le bound)

theorem nearestRank_le (q : Rat) (rank : Nat) (nonneg : 0 ≤ q) (below : q < f.midpoint rank) :
    f.nearestRank q ≤ rank := by
  by_contra above
  obtain ⟨before, next⟩ := Nat.exists_eq_succ_of_ne_zero (Nat.ne_zero_of_lt (not_le.mp above))
  have reached := (f.nearestRank_between q nonneg).2 before next
  have ordered := f.midpoint_mono (show rank ≤ before by omega)
  linarith

theorem lt_nearestRank (q : Rat) (rank : Nat) (nonneg : 0 ≤ q) (above : f.midpoint rank < q) :
    rank < f.nearestRank q := by
  by_contra below
  have reached := (f.nearestRank_between q nonneg).1
  have ordered := f.midpoint_mono (not_lt.mp below)
  linarith

theorem nearestRank_mono (q r : Rat) (nonneg : 0 ≤ q) (ordered : q ≤ r) :
    f.nearestRank q ≤ f.nearestRank r := by
  by_contra reversed
  obtain ⟨before, next⟩ := Nat.exists_eq_succ_of_ne_zero (Nat.ne_zero_of_lt (not_le.mp reversed))
  have low := (f.nearestRank_between q nonneg).2 before next
  have high := (f.nearestRank_between r (nonneg.trans ordered)).1
  have between := f.midpoint_mono (show f.nearestRank r ≤ before by omega)
  have same : q = r := by linarith
  subst same
  exact reversed le_rfl

theorem nearestRank_convex (q r s : Rat) (rank : Nat) (nonneg : 0 ≤ q) (low : q ≤ r)
    (high : r ≤ s) (first : f.nearestRank q = rank) (last : f.nearestRank s = rank) :
    f.nearestRank r = rank := by
  have left := f.nearestRank_mono q r nonneg low
  have right := f.nearestRank_mono r s (nonneg.trans low) high
  omega

/-- Nearer than half the gap before it, a value attracts a rational from both sides. -/
theorem nearestRank_of_near (q : Rat) (rank : Nat) (nonneg : 0 ≤ q)
    (near : |q - f.magnitude (rank + 1)| < f.gap rank / 2) : f.nearestRank q = rank + 1 := by
  rw [abs_lt, magnitude_succ] at near
  have grows : f.gap rank ≤ f.gap (rank + 1) := f.gap_mono (Nat.le_succ rank)
  apply le_antisymm
  · apply f.nearestRank_le q _ nonneg
    rw [midpoint, magnitude_succ]
    linarith
  · apply f.lt_nearestRank q _ nonneg
    rw [midpoint]
    linarith

theorem nearestRank_of_close_least (q : Rat) (rank : Nat) (nonneg : 0 ≤ q)
    (close : |q - f.magnitude rank| < f.leastPositive / 2) : f.nearestRank q = rank := by
  cases rank with
  | zero =>
      have least := f.leastPositive_le_gap 0
      have below := (abs_lt.mp close).2
      apply Nat.le_zero.mp
      apply f.nearestRank_le q 0 nonneg
      rw [midpoint]
      linarith
  | succ rank =>
      have least := f.leastPositive_le_gap rank
      exact f.nearestRank_of_near q rank nonneg (by linarith)

theorem nearestRank_magnitude (rank : Nat) : f.nearestRank (f.magnitude rank) = rank := by
  apply f.nearestRank_of_close_least _ _ (f.magnitude_nonneg rank)
  rw [sub_self, abs_zero]
  linarith [f.leastPositive_pos]

/-- Relatively to the value, a rational this close is rounded to it. -/
theorem nearestRank_of_close (q : Rat) (rank : Nat) (nonneg : 0 ≤ q)
    (close : |q - f.magnitude rank| * (4 * f.binade) < f.magnitude rank) :
    f.nearestRank q = rank := by
  have binade : (0 : Rat) < f.binade := by exact_mod_cast f.binade_pos
  cases rank with
  | zero =>
      rw [magnitude_zero] at close
      have distance := mul_nonneg (abs_nonneg (q - 0)) (by linarith : (0 : Rat) ≤ 4 * f.binade)
      linarith
  | succ rank =>
      apply f.nearestRank_of_near q rank nonneg
      have bound := f.magnitude_succ_le rank
      nlinarith

/-- A rational is moved by half a gap at most, of the value that it is moved to or, when it
is moved up, of the value before that one. -/
theorem nearestRank_error_cases (q : Rat) (nonneg : 0 ≤ q) :
    (f.magnitude (f.nearestRank q) ≤ q ∧
      q - f.magnitude (f.nearestRank q) ≤ f.gap (f.nearestRank q) / 2) ∨
    ∃ rank, f.nearestRank q = rank + 1 ∧ f.magnitude rank ≤ q ∧
      q < f.magnitude (f.nearestRank q) ∧
      f.magnitude (f.nearestRank q) - q ≤ f.gap rank / 2 := by
  obtain ⟨high, low⟩ := f.nearestRank_between q nonneg
  by_cases down : f.magnitude (f.nearestRank q) ≤ q
  · rw [midpoint] at high
    exact Or.inl ⟨down, by linarith⟩
  · right
    have nonzero : f.nearestRank q ≠ 0 := by
      intro zero
      rw [zero, magnitude_zero] at down
      exact down nonneg
    obtain ⟨rank, next⟩ := Nat.exists_eq_succ_of_ne_zero nonzero
    have reached := low rank next
    have start := (f.midpoint_bounds rank).1
    refine ⟨rank, next, by linarith, not_le.mp down, ?_⟩
    rw [next, magnitude_succ]
    rw [midpoint] at reached
    linarith

theorem nearestRank_error_input (q : Rat) (nonneg : 0 ≤ q) :
    |f.magnitude (f.nearestRank q) - q| * (2 * f.binade) ≤
      max q (f.leastPositive * f.binade) := by
  have binade : (0 : Rat) < f.binade := by exact_mod_cast f.binade_pos
  rcases f.nearestRank_error_cases q nonneg with ⟨down, error⟩ | ⟨rank, next, start, up, error⟩
  · have gapBound := (f.gap_mul_binade_le (f.nearestRank q)).trans
      (max_le_max_right (f.leastPositive * f.binade) down)
    rw [abs_of_nonpos (by linarith)]
    nlinarith
  · have gapBound := (f.gap_mul_binade_le rank).trans
      (max_le_max_right (f.leastPositive * f.binade) start)
    rw [abs_of_pos (by linarith)]
    nlinarith

theorem nearestRank_error (q : Rat) (nonneg : 0 ≤ q) :
    |f.magnitude (f.nearestRank q) - q| * (2 * f.binade) ≤
      max (f.magnitude (f.nearestRank q)) (f.leastPositive * f.binade) := by
  have binade : (0 : Rat) < f.binade := by exact_mod_cast f.binade_pos
  have gapBound := f.gap_mul_binade_le (f.nearestRank q)
  rcases f.nearestRank_error_cases q nonneg with ⟨down, error⟩ | ⟨rank, next, start, up, error⟩
  · rw [abs_of_nonpos (by linarith)]
    nlinarith
  · have grows : f.gap rank ≤ f.gap (f.nearestRank q) := f.gap_mono (by omega)
    rw [abs_of_pos (by linarith)]
    nlinarith

end BinaryFormat

end DeskCalculator
