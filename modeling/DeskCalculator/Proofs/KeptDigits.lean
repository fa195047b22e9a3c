import DeskCalculator.Proofs.FewDigits
import DeskCalculator.Proofs.IntegerText
import DeskCalculator.Proofs.RereadResult

/-!
Numbers that come out as they were written. Fifteen digits are too few for two decimals to be
read as one number, so what is shown is the decimal that was written, and an integer that the
format holds with all its neighbours is shown with all of its digits.
-/

namespace DeskCalculator

/-- The value has no more significant digits than the count. -/
def HasDigits (count : Nat) (v : Rat) : Prop :=
  ∃ digits place : Int, digits.natAbs < 10 ^ count ∧ v = digits * (10 : Rat) ^ place

theorem HasDigits.abs {count : Nat} {v : Rat} (few : HasDigits count v) :
    ∃ (digits : Nat) (place : Int), digits < 10 ^ count ∧ |v| = digits * (10 : Rat) ^ place := by
  obtain ⟨digits, place, bound, rfl⟩ := few
  refine ⟨digits.natAbs, place, bound, ?_⟩
  rw [abs_mul, abs_of_pos (ten_pos place), Nat.cast_natAbs, Int.cast_abs]

theorem evaluate_denoted (text : Text) (v : Rat) (writes : Denotes text v) :
    ∃ d : Decimal, d.toRat = v ∧
      evaluate text = display (.ofMagnitude d.negative |v| : Double) := by
  obtain ⟨d, read, rfl⟩ := (denotes_iff text v).mp writes
  refine ⟨d, rfl, ?_⟩
  rw [evaluate_number text d read, d.nearest_eq_ofMagnitude, d.abs_toRat]

theorem ofMagnitude_finite (negative : Bool) (q : Rat)
    (bounded : BinaryFormat.double.nearestRank q < BinaryFormat.double.infinityRank) :
    (.ofMagnitude negative q : Double) =
      .finite ⟨negative, BinaryFormat.double.nearestRank q, bounded⟩ := by
  rw [Number.ofMagnitude, dif_pos bounded]

/-- Up to the greatest decimal of fifteen digits below it, no decimal is read as infinite. -/
theorem nearestRank_lt_infinityRank (q : Rat) (nonneg : 0 ≤ q)
    (bounded : q ≤ 179769313486231 * (10 : Rat) ^ (294 : Int)) :
    BinaryFormat.double.nearestRank q < BinaryFormat.double.infinityRank := by
  have greatest : BinaryFormat.double.nearestRank (179769313486231 * (10 : Rat) ^ (294 : Int)) <
      BinaryFormat.double.infinityRank := by decide +kernel
  exact (BinaryFormat.double.nearestRank_mono q _ nonneg bounded).trans_lt greatest

theorem power_le_leastNormal : (10 : Rat) ^ (-308 : Int) ≤ (2 : Rat) ^ (-1022 : Int) := by
  rw [zpow_neg, zpow_neg, inv_le_inv₀ (ten_pos _) (zpow_pos (by norm_num) _)]
  exact_mod_cast powers_of_ten.2.2

theorem shortest_toRat (y : FiniteNumber .double) (nonzero : y.rank ≠ 0) :
    (Decimal.shortest y).toRat =
      if y.negative then -(Decimal.shortest y).magnitude else (Decimal.shortest y).magnitude := by
  rw [Decimal.toRat, (Decimal.shortest_reads y nonzero).1]

/-- The text shown for what a decimal is read as writes the decimal. -/
theorem ReadsDigits.shown_denotes {digits : Nat} {place : Int} {y : FiniteNumber .double}
    (decimal : ReadsDigits digits place y) :
    Denotes y.toDecimal.text (⟨y.negative, digits, place⟩ : Decimal).toRat := by
  have written := (Decimal.shortest y).text_denotes
  rw [shortest_toRat y decimal.nonzero, decimal.shortest_magnitude] at written
  rw [toDecimal_of_nonzero y decimal.nonzero]
  exact written

theorem display_integer (x : FiniteNumber .double) (n : Int) (value : x.toRat = n)
    (small : |n| ≤ 2 ^ 53) : display (.finite x) = .ok (textOfInt n) := by
  have bound : n.natAbs ≤ 2 ^ 53 := by
    rw [Int.abs_eq_natAbs] at small
    exact_mod_cast small
  have whole : x.magnitude = n.natAbs := by
    rw [← x.abs_toRat, value, Nat.cast_natAbs, Int.cast_abs]
  rw [display_finite]
  by_cases zero : x.rank = 0
  · rw [FiniteNumber.magnitude, zero, BinaryFormat.magnitude_zero] at whole
    have vanishes : n = 0 := Int.natAbs_eq_zero.mp (by exact_mod_cast whole.symm)
    rw [shownText_of_zero x zero, vanishes]
    rfl
  · have positive : 0 < n.natAbs := by
      have above := x.magnitude_pos_iff.mpr zero
      rw [whole] at above
      exact_mod_cast above
    have shown : (Decimal.shortest x).toRat = n := by
      rw [shortest_toRat x zero, Decimal.shortest_of_integer x _ whole positive bound, ← whole]
      exact value
    rw [x.rounded_eq, x.isExactInteger_iff.mpr ⟨_, whole, bound⟩, if_pos rfl,
      toDecimal_of_nonzero x zero, Decimal.text_integer _ n shown (by omega)]

theorem evaluate_few_digits (text : Text) (v : Rat) (writes : Denotes text v)
    (few : HasDigits 15 v)
    (normal : v = 0 ∨ ((2 : Rat) ^ (-1022 : Int) ≤ |v| ∧
      |v| ≤ 179769313486231 * (10 : Rat) ^ (294 : Int))) :
    ∃ shown, evaluate text = .ok shown ∧ Denotes shown v := by
  obtain ⟨d, value, evaluated⟩ := evaluate_denoted text v writes
  rcases normal with zero | ⟨large, bounded⟩
  · refine ⟨['0'], ?_, (denotes_iff _ _).mpr ⟨⟨false, 0, 0⟩, rfl, ?_⟩⟩
    · rw [evaluated, zero, abs_zero]
      exact display_zero d.negative
    · simp [zero, Decimal.toRat, Decimal.magnitude]
  · obtain ⟨digits, place, bound, split⟩ := few.abs
    have inside := nearestRank_lt_infinityRank |v| (abs_nonneg v) bounded
    -- The spelling may have more zeros than the fifteen digits, but only its value is read.
    let y : FiniteNumber .double := ⟨d.negative, BinaryFormat.double.nearestRank |v|, inside⟩
    have decimal : ReadsDigits digits place y := by
      refine ⟨bound.le, ?_, ?_⟩
      · rw [← split]
        exact power_le_leastNormal.trans large
      · rw [← split]
    refine ⟨y.toDecimal.text, ?_, ?_⟩
    · rw [evaluated, ofMagnitude_finite _ _ inside, display_finite, decimal.rounded]
    · have same : (⟨d.negative, digits, place⟩ : Decimal).toRat = v := by
        rw [← value, Decimal.toRat, Decimal.toRat, ← d.abs_toRat, value, split]
        rfl
      have shown := decimal.shown_denotes
      rwa [same] at shown

theorem ofMagnitude_integer (negative : Bool) (n : Nat) (small : n ≤ 2 ^ 53) :
    ∃ x : FiniteNumber .double, Number.ofMagnitude negative n = .finite x ∧
      x.negative = negative ∧ x.magnitude = n := by
  rcases Nat.eq_zero_or_pos n with rfl | positive
  · refine ⟨⟨negative, 0, by decide⟩, ?_, rfl, BinaryFormat.double.magnitude_zero.trans (by simp)⟩
    rw [Number.ofMagnitude_eq_finite_iff]
    exact ⟨rfl, by rw [Nat.cast_zero, BinaryFormat.nearestRank_zero]⟩
  · obtain ⟨rank, magnitude⟩ := BinaryFormat.double.exists_rank_of_integer n (by decide) positive
      small
    have reads : BinaryFormat.double.nearestRank n = rank := by
      rw [← magnitude, BinaryFormat.double.nearestRank_magnitude]
    have inside : BinaryFormat.double.nearestRank n < BinaryFormat.double.infinityRank := by
      apply nearestRank_lt_infinityRank _ (Nat.cast_nonneg n)
      have power : (2 : Rat) ^ 53 ≤ 179769313486231 * (10 : Rat) ^ (294 : Int) := by
        calc
          (2 : Rat) ^ 53 ≤ 179769313486231 * (10 : Rat) ^ (2 : Int) := by norm_num
          _ ≤ 179769313486231 * (10 : Rat) ^ (294 : Int) := by gcongr <;> norm_num
      exact (show (n : Rat) ≤ 2 ^ 53 by exact_mod_cast small).trans power
    refine ⟨⟨negative, rank, reads ▸ inside⟩, ?_, rfl, magnitude⟩
    rw [Number.ofMagnitude_eq_finite_iff]
    exact ⟨rfl, reads⟩

theorem nearest_integer (d : Decimal) (n : Int) (value : d.toRat = n) (small : |n| ≤ 2 ^ 53) :
    ∃ x : FiniteNumber .double, d.nearest = .finite x ∧ x.negative = d.negative ∧
      x.toRat = n := by
  have natural : |(n : Rat)| = n.natAbs := by rw [Nat.cast_natAbs, Int.cast_abs]
  obtain ⟨x, reads, negative, magnitude⟩ := ofMagnitude_integer d.negative n.natAbs
    (by rw [Int.abs_eq_natAbs] at small; exact_mod_cast small)
  rw [← natural, ← value, d.abs_toRat] at reads magnitude
  refine ⟨x, by rw [d.nearest_eq_ofMagnitude, reads], negative, ?_⟩
  rw [← value, FiniteNumber.toRat, negative, magnitude]
  rfl

theorem evaluate_integer (text : Text) (n : Int) (writes : Denotes text n)
    (small : |n| ≤ 2 ^ 53) : evaluate text = .ok (textOfInt n) := by
  obtain ⟨d, read, value⟩ := (denotes_iff text n).mp writes
  obtain ⟨x, reads, _, same⟩ := nearest_integer d n value small
  rw [evaluate_number text d read, reads, display_integer x n same small]

/-- Fifteen digits are never altered, and an integer up to two binades is shown in full. -/
theorem written_number_kept :
    (∀ text v, Denotes text v → HasDigits 15 v →
      (v = 0 ∨ ((2 : Rat) ^ (-1022 : Int) ≤ |v| ∧
        |v| ≤ 179769313486231 * (10 : Rat) ^ (294 : Int))) →
      ∃ shown, evaluate text = .ok shown ∧ Denotes shown v) ∧
    ∀ text (n : Int), Denotes text n → |n| ≤ 2 ^ 53 →
      evaluate text = .ok (textOfInt n) ∧ Denotes (textOfInt n) n := by
  refine ⟨evaluate_few_digits, ?_⟩
  intro text n writes small
  exact ⟨evaluate_integer text n writes small, textOfInt_denotes n⟩

-- Zeros and points in odd places, and the last integer that is shown in full.
theorem written_number_kept_spellings :
    (∃ shown, evaluate "-00.0012300E4".toList = .ok shown ∧ Denotes shown (-123 / 10)) ∧
      evaluate "+9007199254740992.".toList = .ok "9007199254740992".toList := by
  have fraction : Denotes "-00.0012300E4".toList (-123 / 10) :=
    (denotes_iff _ _).mpr ⟨⟨true, 12300, -3⟩, by decide,
      by norm_num [Decimal.toRat, Decimal.magnitude]⟩
  have integer : Denotes "+9007199254740992.".toList (9007199254740992 : Int) :=
    (denotes_iff _ _).mpr ⟨⟨false, 9007199254740992, 0⟩, by decide,
      by norm_num [Decimal.toRat, Decimal.magnitude]⟩
  have few : HasDigits 15 (-123 / 10) := ⟨-123, -1, by decide, by norm_num⟩
  have bounds : (2 : Rat) ^ (-1022 : Int) ≤ |-123 / 10| ∧
      |-123 / 10| ≤ 179769313486231 * (10 : Rat) ^ (294 : Int) := by
    have size : |(-123 / 10 : Rat)| = 123 / 10 := by norm_num [abs_div]
    rw [size]
    constructor
    · exact (zpow_le_one_of_nonpos₀ (by norm_num) (by norm_num)).trans (by norm_num)
    · have power : (1 : Rat) ≤ 10 ^ (294 : Int) := one_le_zpow₀ (by norm_num) (by norm_num)
      exact (show (123 / 10 : Rat) ≤ 179769313486231 * 1 by norm_num).trans
        (mul_le_mul_of_nonneg_left power (by norm_num))
  exact ⟨written_number_kept.1 _ _ fraction few (Or.inr bounds),
    (written_number_kept.2 _ _ integer (by decide)).1⟩

end DeskCalculator
