import DeskCalculator.Proofs.CorrectRounding
import DeskCalculator.Proofs.ResultShape

/-!
Rounding for display as a projection. Whatever is rounded becomes a number of a known kind: an exact
integer, a number that fifteen digits write, or one whose fifteen digits are past the greatest
value. Numbers of these kinds, and no others, are their own rounded values, so rounding twice is
rounding once. The sign is kept, and nothing but a zero becomes a zero.
-/

namespace DeskCalculator

theorem Number.ofBits_toBits? {f : BinaryFormat} (x : FiniteNumber f) :
    ∃ bits, (finite x).toBits? = some bits ∧ ofBits bits = finite x := by
  have below : x.rank < f.binade <<< f.exponentBits := by
    have limit : f.infinityRank ≤ f.binade <<< f.exponentBits := by
      rw [BinaryFormat.infinityRank, Nat.shiftLeft_eq, Nat.shiftLeft_eq, one_mul, mul_comm]
      exact Nat.mul_le_mul_left _ (Nat.sub_le _ _)
    exact x.bounded.trans_le limit
  refine ⟨toBits?.place x.negative x.rank, rfl, ?_⟩
  obtain ⟨negative, rank, bounded⟩ := x
  cases negative with
  | false =>
      have sign : rank / f.binade <<< f.exponentBits = 0 := Nat.div_eq_of_lt below
      have rest : rank % f.binade <<< f.exponentBits = rank := Nat.mod_eq_of_lt below
      simp [ofBits, toBits?.place, sign, rest, bounded]
  | true =>
      have sign : (f.binade <<< f.exponentBits + rank) / f.binade <<< f.exponentBits = 1 := by
        rw [Nat.add_div_left _ (by omega), Nat.div_eq_of_lt below]
      have rest : (f.binade <<< f.exponentBits + rank) % f.binade <<< f.exponentBits = rank := by
        rw [Nat.add_mod_left, Nat.mod_eq_of_lt below]
      simp [ofBits, toBits?.place, sign, rest, bounded]

inductive IsKept (y : FiniteNumber .double) : Prop where
  | integer (small : IsSmallInteger y.toRat)
  | decimal (d : Decimal) (few : HasDigits 15 d.toRat) (reads : d.nearest = Number.finite y)
  | overflow (v : Rat) (rounding : IsRounding 15 y.toRat v) (past : Overflows v)

/-- Rounding may carry into a sixteenth digit, but then all of them are zeros behind a one. -/
theorem hasDigits_of_le (d : Decimal) (few : d.digits ≤ 10 ^ 15) : HasDigits 15 d.toRat := by
  have signed (digits : Nat) (place : Int) (small : digits < 10 ^ 15)
      (same : d.magnitude = digits * (10 : Rat) ^ place) : HasDigits 15 d.toRat := by
    rw [Decimal.toRat]
    split
    · exact ⟨-digits, place, by simpa using small, by rw [same]; push_cast; ring⟩
    · exact ⟨digits, place, by simpa using small, by rw [same]; push_cast; ring⟩
  rcases Nat.lt_or_eq_of_le few with less | full
  · exact signed d.digits d.exponent less rfl
  · apply signed 1 (d.exponent + 15) (by norm_num)
    rw [Decimal.magnitude, full, zpow_add₀ (by norm_num)]
    norm_num
    ring

namespace FiniteNumber

theorem isKept_rounded (x : FiniteNumber .double) : IsKept x.rounded := by
  rcases x.rounded_cases with ⟨exact, same⟩ | ⟨_, nonzero, y, reading, same⟩ |
    ⟨_, nonzero, reading, same⟩
  · rw [same]
    exact .integer (x.isSmallInteger_iff.mpr exact)
  · rw [same]
    have digits := Decimal.significant_digits shownDigits x.negative x.magnitude (by decide)
      (x.magnitude_pos_iff.mpr nonzero)
    exact .decimal x.shownDecimal (hasDigits_of_le _ digits.2.1) reading
  · rw [same]
    rw [x.shownDecimal.nearest_eq_ofRat (x.shownDecimal_digits nonzero) false] at reading
    exact .overflow _ ((x.isRounding_iff nonzero _).mpr rfl) ⟨_, reading⟩

theorem rounded_of_decimal (y : FiniteNumber .double) (d : Decimal) (few : HasDigits 15 d.toRat)
    (reads : d.nearest = Number.finite y) : y.rounded = y := by
  by_cases zero : y.rank = 0
  · rw [rounded_eq, y.isExactInteger_of_zero zero, if_pos rfl]
  · obtain ⟨digits, place, small, same⟩ := few.abs
    rw [d.abs_toRat] at same
    have rank := ((d.nearest_eq_finite_iff y).mp reads).2
    rw [same] at rank
    exact y.rounded_of_reads (significant_reads_back y y.negative digits place zero small.le rank)

theorem rounded_of_isKept (y : FiniteNumber .double) (kept : IsKept y) : y.rounded = y := by
  cases kept with
  | integer small => rw [rounded_eq, y.isSmallInteger_iff.mp small, if_pos rfl]
  | decimal d few reads => exact y.rounded_of_decimal d few reads
  | overflow v rounding past =>
      by_cases exact : y.isExactInteger = true
      · rw [rounded_eq, exact, if_pos rfl]
      · have nonzero : y.rank ≠ 0 := mt y.isExactInteger_of_zero exact
        rw [(y.isRounding_iff nonzero v).mp rounding] at past
        exact rounded_of_overflows y exact past

/-- Rounding for display is a projection onto the numbers it leaves as they are. It keeps the sign,
makes a zero of nothing else, and gives a finite number with the bits it has when it is rounded
once more. -/
theorem rounding_projects (x : FiniteNumber .double) :
    x.rounded.negative = x.negative ∧
    (x.rounded.toRat = 0 ↔ x.toRat = 0) ∧
    x.rounded.rounded = x.rounded ∧
    IsKept x.rounded ∧
    (∀ y : FiniteNumber .double, y.rounded = y ↔ IsKept y) ∧
    ∃ bits, (Number.finite x.rounded).toBits? = some bits ∧
      Number.ofBits bits = Number.finite x.rounded ∧
      (Number.finite x.rounded.rounded).toBits? = some bits := by
  refine ⟨x.rounded_negative, ?_, x.rounded_rounded, x.isKept_rounded,
    fun y => ⟨?_, y.rounded_of_isKept⟩, ?_⟩
  · rw [toRat_eq_zero_iff, toRat_eq_zero_iff]
    constructor
    · intro zero
      by_contra nonzero
      exact x.rounded_nonzero nonzero zero
    · intro zero
      rwa [rounded_eq, x.isExactInteger_of_zero zero, if_pos rfl]
  · intro same
    rw [← same]
    exact y.isKept_rounded
  · obtain ⟨bits, written, read⟩ := Number.ofBits_toBits? x.rounded
    exact ⟨bits, written, read, by rw [x.rounded_rounded, written]⟩

end FiniteNumber

end DeskCalculator
