import DeskCalculator.Proofs.NearestDecimal

/-!
Rounding to an integer, half to even. The rounded integer is within a half of the value and
even when it is just a half away, and no other integer is both. With these facts nothing that
rounds has to look inside the rounding.
-/

namespace DeskCalculator

theorem floor_bounds (q : Rat) : (q.floor : Rat) ≤ q ∧ q < (q.floor : Rat) + 1 := by
  have above := Rat.lt_floor_add_one q
  push_cast at above
  exact ⟨Rat.floor_le q, above⟩

theorem halfEven_error (q : Rat) : |(halfEven q : Rat) - q| ≤ 1 / 2 := by
  have bounds := floor_bounds q
  simp only [halfEven]
  rw [abs_le]
  split_ifs <;> push_cast <;> constructor <;> linarith

theorem halfEven_tie (q : Rat) (tie : |(halfEven q : Rat) - q| = 1 / 2) :
    halfEven q % 2 = 0 := by
  have bounds := floor_bounds q
  simp only [halfEven] at tie ⊢
  split_ifs at tie ⊢ with small large even
  · rw [abs_of_nonpos (by linarith)] at tie
    linarith
  · push_cast at tie
    rw [abs_of_nonneg (by linarith)] at tie
    linarith
  · exact even
  · omega

/-- Two integers less than one apart are the same. -/
theorem int_eq_of_close (m n : Int) (close : |(m : Rat) - n| < 1) : m = n := by
  have apart : |m - n| < 1 := by exact_mod_cast close
  rw [abs_lt] at apart
  omega

theorem halfEven_unique (q : Rat) (n : Int) (close : |(n : Rat) - q| ≤ 1 / 2)
    (even : |(n : Rat) - q| = 1 / 2 → n % 2 = 0) : halfEven q = n := by
  have error := halfEven_error q
  have apart := abs_sub_le (halfEven q : Rat) q n
  rw [abs_sub_comm q n] at apart
  by_cases tie : |(n : Rat) - q| = 1 / 2 ∧ |(halfEven q : Rat) - q| = 1 / 2
  · -- Both are even and no more than one apart.
    have here := halfEven_tie q tie.2
    have there := even tie.1
    have bound : |halfEven q - n| ≤ 1 := by
      have bound : |(halfEven q : Rat) - n| ≤ 1 := by linarith
      exact_mod_cast bound
    rw [abs_le] at bound
    omega
  · apply int_eq_of_close
    rcases not_and_or.mp tie with near | near
    · have nearer := lt_of_le_of_ne close near
      linarith
    · have nearer := lt_of_le_of_ne error near
      linarith

theorem halfEven_le (n : Int) (q : Rat) (reached : q ≤ n) : halfEven q ≤ n := by
  have error := abs_le.mp (halfEven_error q)
  have below : (halfEven q : Rat) < (n + 1 : Int) := by
    push_cast
    linarith
  have bound : halfEven q < n + 1 := by exact_mod_cast below
  omega

/-- Were the order reversed, both would lie halfway between the two integers. -/
theorem halfEven_mono (q r : Rat) (ordered : q ≤ r) : halfEven q ≤ halfEven r := by
  by_contra reversed
  have apart : (halfEven r : Rat) + 1 ≤ halfEven q := by exact_mod_cast not_le.mp reversed
  have left := abs_le.mp (halfEven_error q)
  have right := abs_le.mp (halfEven_error r)
  have same : q = r := by linarith
  exact reversed (same ▸ le_rfl)

end DeskCalculator
