import DeskCalculator.Proofs.NearestRank

/-!
Rounding described by distances alone. The value that a rational is rounded to is at least as
near as any other, and where another is equally near its rank is even. The ranks go on past the
greatest finite value, so the same description says which rationals become infinite.
-/

namespace DeskCalculator

namespace BinaryFormat

variable (f : BinaryFormat)

/-- No value is nearer to `q` than that of `rank`, and another is equally near only if `rank` is
even. -/
structure IsNearestRank (q : Rat) (rank : Nat) : Prop where
  nearest : ∀ other, |f.magnitude rank - q| ≤ |f.magnitude other - q|
  even : ∀ other, |f.magnitude rank - q| = |f.magnitude other - q| →
    other = rank ∨ rank % 2 = 0

theorem binade_even (bits : 1 ≤ f.fractionBits) : f.binade % 2 = 0 := by
  obtain ⟨fewer, count⟩ := Nat.exists_eq_add_of_le bits
  rw [binade_eq, count, Nat.pow_add, Nat.pow_one]
  omega

/-- A rational has one place, counted in whose unit it has between one binade and two. -/
theorem roundingPlace_eq (q digits : Rat) (place : Nat) (positive : 0 < q)
    (split : q = digits * (2 ^ place * f.leastPositive)) (small : digits < 2 * f.binade)
    (large : place = 0 ∨ (f.binade : Rat) ≤ digits) :
    f.roundingPlace q = place ∧ f.scaled q = digits := by
  have unit : ∀ other : Nat, (0 : Rat) < 2 ^ other * f.leastPositive :=
    fun other => mul_pos (by positivity) f.leastPositive_pos
  obtain ⟨scaledSmall, scaledLarge⟩ := f.scaled_bounds q positive
  have scaledSplit := f.scaled_mul q
  have doubled (low high : Nat) (less : low < high) :
      2 * (2 ^ low * f.leastPositive) ≤ 2 ^ high * f.leastPositive := by
    rw [← mul_assoc, mul_comm 2, ← pow_succ]
    exact mul_le_mul_of_nonneg_right (pow_le_pow_right₀ (by norm_num) less)
      f.leastPositive_pos.le
  have same : f.roundingPlace q = place := by
    rcases Nat.lt_trichotomy (f.roundingPlace q) place with less | same | more
    · have reached := large.resolve_left (by omega)
      have wide := doubled _ _ less
      have here := unit (f.roundingPlace q)
      nlinarith
    · exact same
    · have reached := scaledLarge.resolve_left (by omega)
      have wide := doubled _ _ more
      have here := unit place
      nlinarith
  refine ⟨same, ?_⟩
  rw [same, split] at scaledSplit
  rw [split]
  exact mul_right_cancel₀ (unit place).ne' scaledSplit

theorem midpoint_eq (rank : Nat) : f.midpoint rank =
    (f.significand rank + 1 / 2) * (2 ^ (rank / f.binade - 1) * f.leastPositive) := by
  rw [midpoint, magnitude_eq, gap, step_eq]
  push_cast
  ring

theorem nearestRank_midpoint_even (rank : Nat) (bits : 1 ≤ f.fractionBits) :
    f.nearestRank (f.midpoint rank) % 2 = 0 := by
  have positive := (f.magnitude_nonneg rank).trans_lt (f.midpoint_bounds rank).1
  have small : (f.significand rank : Rat) + 1 ≤ 2 * f.binade := by
    exact_mod_cast f.significand_lt rank
  have large : rank / f.binade - 1 = 0 ∨ (f.binade : Rat) ≤ f.significand rank + 1 / 2 := by
    refine (f.rank_place rank).2.imp_right fun reached => ?_
    have natural : (f.binade : Rat) ≤ f.significand rank := by exact_mod_cast reached
    linarith
  obtain ⟨_, scaled⟩ := f.roundingPlace_eq _ _ _ positive (f.midpoint_eq rank) (by linarith) large
  have error := halfEven_error (f.scaled (f.midpoint rank))
  -- The rational lies halfway between two integers, so either of them is at the same distance.
  have even : halfEven (f.scaled (f.midpoint rank)) % 2 = 0 := by
    apply halfEven_tie
    generalize halfEven (f.scaled (f.midpoint rank)) = rounded at error
    rw [scaled] at error ⊢
    rw [abs_le] at error
    have low : (f.significand rank : Int) ≤ rounded := by
      have bound : (f.significand rank : Rat) ≤ rounded := by linarith
      exact_mod_cast bound
    have high : rounded ≤ f.significand rank + 1 := by
      have bound : (rounded : Rat) ≤ f.significand rank + 1 := by linarith
      exact_mod_cast bound
    obtain rfl | rfl : rounded = f.significand rank ∨ rounded = f.significand rank + 1 := by omega
    · rw [abs_of_neg] <;> push_cast <;> linarith
    · rw [abs_of_pos] <;> push_cast <;> linarith
  have evenUnit := f.binade_even bits
  rw [f.nearestRank_eq _ positive, Nat.add_mod, Nat.mul_mod, evenUnit]
  omega

theorem abs_sub_le_iff_middle (x y q : Rat) :
    |x - q| ≤ |y - q| ↔ 0 ≤ (y - x) * (x + y - 2 * q) := by
  rw [← sq_le_sq]
  constructor <;> intro ordered <;> linarith

theorem nearestRank_isNearest (q : Rat) (nonneg : 0 ≤ q) (bits : 1 ≤ f.fractionBits) :
    f.IsNearestRank q (f.nearestRank q) := by
  obtain ⟨high, low⟩ := f.nearestRank_between q nonneg
  have even (rank : Nat) (tie : q = f.midpoint rank) : f.nearestRank q % 2 = 0 := by
    rw [tie]
    exact f.nearestRank_midpoint_even rank bits
  generalize f.nearestRank q = rank at high low even
  have farther (other : Nat) : |f.magnitude rank - q| ≤ |f.magnitude other - q| ∧
      (|f.magnitude rank - q| = |f.magnitude other - q| → other = rank ∨ rank % 2 = 0) := by
    rw [abs_sub_le_iff_middle, abs_eq_abs]
    rcases Nat.lt_trichotomy other rank with less | rfl | more
    · obtain ⟨before, rfl⟩ := Nat.exists_eq_succ_of_ne_zero (Nat.ne_zero_of_lt less)
      have reached := low before rfl
      have ordered := f.magnitude_strictMono.monotone (Nat.le_of_lt_succ less)
      have next := f.magnitude_succ before
      have positive := f.gap_pos before
      have middle : f.midpoint before = f.magnitude before + f.gap before / 2 := rfl
      refine ⟨mul_nonneg_of_nonpos_of_nonpos (by linarith) (by linarith), ?_⟩
      rintro (same | opposite)
      · linarith
      · exact Or.inr (even before (by linarith))
    · exact ⟨by simp, fun _ => Or.inl rfl⟩
    · have ordered := f.magnitude_strictMono.monotone (Nat.succ_le_of_lt more)
      have next := f.magnitude_succ rank
      have positive := f.gap_pos rank
      have middle : f.midpoint rank = f.magnitude rank + f.gap rank / 2 := rfl
      refine ⟨mul_nonneg (by linarith) (by linarith), ?_⟩
      rintro (same | opposite)
      · linarith
      · exact Or.inr (even rank (by linarith))
  exact ⟨fun other => (farther other).1, fun other => (farther other).2⟩

/-- No two ranks are both nearest: between two even ones there is a nearer rank. -/
theorem IsNearestRank.unique {f : BinaryFormat} {q : Rat} {rank other : Nat}
    (first : f.IsNearestRank q rank) (second : f.IsNearestRank q other) : rank = other := by
  wlog less : rank < other generalizing rank other
  · rcases Nat.lt_trichotomy rank other with below | same | above
    · exact absurd below less
    · exact same
    · exact (this second first above).symm
  have tie : |f.magnitude rank - q| = |f.magnitude other - q| :=
    le_antisymm (first.nearest other) (second.nearest rank)
  have firstEven := (first.even other tie).resolve_left less.ne'
  have secondEven := (second.even rank tie.symm).resolve_left less.ne
  have low := f.magnitude_strictMono (Nat.lt_succ_self rank)
  have high := f.magnitude_strictMono (show rank + 1 < other by omega)
  have closest := (abs_sub_le_iff_middle _ _ q).mp (first.nearest (rank + 1))
  rcases abs_eq_abs.mp tie with same | opposite
  · linarith
  · nlinarith

theorem nearestRank_iff (q : Rat) (rank : Nat) (nonneg : 0 ≤ q) (bits : 1 ≤ f.fractionBits) :
    f.IsNearestRank q rank ↔ rank = f.nearestRank q := by
  constructor
  · intro nearest
    exact nearest.unique (f.nearestRank_isNearest q nonneg bits)
  · rintro rfl
    exact f.nearestRank_isNearest q nonneg bits

end BinaryFormat

namespace Number

theorem ratAbs_eq (q : Rat) : q.abs = |q| := by
  rw [Rat.abs]
  split
  · rename_i nonneg
    exact (abs_of_nonneg nonneg).symm
  · rename_i negative
    exact (abs_of_neg (not_le.mp negative)).symm

variable {f : BinaryFormat}

def ofRank (negative : Bool) (rank : Nat) : Number f :=
  if bounded : rank < f.infinityRank then .finite ⟨negative, rank, bounded⟩
  else .infinity negative

/-- Whether `x` is the number nearest to `q`, with the sign of `q` or, when `q` is zero, with
the given one. -/
def IsNearest (x : Number f) (negativeZero : Bool) (q : Rat) : Prop :=
  ∃ rank, f.IsNearestRank |q| rank ∧
    x = ofRank (if q = 0 then negativeZero else decide (q < 0)) rank

theorem isNearest_iff (x : Number f) (negativeZero : Bool) (q : Rat)
    (bits : 1 ≤ f.fractionBits) : x.IsNearest negativeZero q ↔ x = ofRat negativeZero q := by
  have rounded : ofRat negativeZero q =
      (ofRank (if q = 0 then negativeZero else decide (q < 0)) (f.nearestRank |q|) :
        Number f) := by
    rw [ofRat]
    split
    · rename_i zero
      rw [zero, abs_zero]
      rfl
    · rw [ratAbs_eq]
      rfl
  rw [rounded, IsNearest]
  constructor
  · rintro ⟨rank, nearest, rfl⟩
    rw [(f.nearestRank_iff _ rank (abs_nonneg q) bits).mp nearest]
  · rintro rfl
    exact ⟨_, f.nearestRank_isNearest _ (abs_nonneg q) bits, rfl⟩

end Number

end DeskCalculator
