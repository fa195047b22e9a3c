import DeskCalculator.Fit
import DeskCalculator.Proofs.NearestValue

/-!
The scale of a text that is too wide. Unless there is no number to be had, it is the number
nearest to the share of the width that is available, or a half where the share is less. Shares
are exact and in order, and rounding keeps the order, so the scale falls with the width and grows
with what is available, across all the cases of its computation.
-/

namespace DeskCalculator

namespace Number

variable {f : BinaryFormat}

theorem le_nan (x : Number f) : x.le .nan = false := by
  rcases x with _ | negative | x <;> rfl

theorem eq_of_le_bottom (x : Number f) (ordered : x.le (.infinity true) = true) :
    x = .infinity true := by
  rcases x with _ | (_ | _) | x
  · cases ordered
  · cases ordered
  · rfl
  · cases ordered

theorem eq_of_top_le (x : Number f) (ordered : (infinity false : Number f).le x = true) :
    x = .infinity false := by
  rcases x with _ | (_ | _) | x
  · cases ordered
  · rfl
  · cases ordered
  · cases ordered

theorem le_finite_iff (x y : FiniteNumber f) :
    (finite x).le (.finite y) = true ↔ x.toRat ≤ y.toRat := decide_eq_true_iff

theorem le_trans (x y z : Number f) (first : x.le y = true) (second : y.le z = true) :
    x.le z = true := by
  rcases y with _ | (_ | _) | y
  · rw [le_nan] at first
    cases first
  · rw [eq_of_top_le z second]
    exact first
  · rw [eq_of_le_bottom x first]
    exact second
  · rcases z with _ | (_ | _) | z
    · cases second
    · rcases x with _ | (_ | _) | x
      · cases first
      · cases first
      · rfl
      · rfl
    · cases second
    · rcases x with _ | (_ | _) | x
      · cases first
      · cases first
      · rfl
      · rw [le_finite_iff] at *
        exact first.trans second

end Number

namespace FiniteNumber

variable {f : BinaryFormat} (x : FiniteNumber f)

theorem toRat_unsigned (sign : x.negative = false) : x.toRat = x.magnitude := by
  rw [toRat, sign]
  rfl

theorem toRat_nonpos (sign : x.negative = true) : x.toRat ≤ 0 := by
  rw [toRat, if_pos sign]
  linarith [x.magnitude_nonneg]

theorem sign_of_pos (positive : 0 < x.toRat) : x.negative = false :=
  Bool.eq_false_iff.mpr fun sign => (x.toRat_nonpos sign).not_gt positive

/-- A quotient by a positive number has the sign of what is divided. -/
theorem div_of_pos (y : FiniteNumber f) (positive : 0 < x.toRat) :
    y.div x = .ofMagnitude y.negative (y.magnitude / x.toRat) := by
  have sign := x.sign_of_pos positive
  have value := x.toRat_unsigned sign
  have nonzero : x.rank ≠ 0 := x.magnitude_pos_iff.mp (value ▸ positive)
  rw [div, isZero, decide_eq_false nonzero, sign, value, Bool.bne_false]
  rfl

end FiniteNumber

namespace Number

variable {f : BinaryFormat}

theorem lt_finite_iff (x y : FiniteNumber f) :
    (finite x).lt (.finite y) = true ↔ x.toRat < y.toRat := by
  rw [lt, Bool.and_eq_true, Bool.not_eq_true', ← Bool.not_eq_true, le_finite_iff, le_finite_iff,
    not_le, and_iff_right_iff_imp]
  exact le_of_lt

end Number

namespace Fit

open BinaryFormat Number

/-- Powers of two from a place on are values. -/
theorem magnitude_power (place : Nat) :
    single.magnitude (place * single.binade + single.binade) =
      (2 : Rat) ^ ((place : Int) - 126) := by
  have least : single.leastPositive = (2 : Rat) ^ (-149 : Int) := rfl
  have exponent : (place : Int) - 126 = ((23 + place : Nat) : Int) + -149 := by
    push_cast
    ring
  rw [magnitude, single.units_place place single.binade (by omega) (Or.inr le_rfl), least,
    binade_eq, exponent, zpow_add₀ (by norm_num), zpow_natCast, pow_add]
  push_cast
  rfl

theorem magnitude_half : single.magnitude (single.nearestRank (1 / 2)) = 1 / 2 := by
  have value : single.magnitude (125 * single.binade + single.binade) = 1 / 2 :=
    (magnitude_power 125).trans (by norm_num)
  rw [← value, single.nearestRank_magnitude]

theorem nearestRank_one : single.nearestRank 1 = 126 * single.binade + single.binade := by
  have value : single.magnitude (126 * single.binade + single.binade) = 1 :=
    (magnitude_power 126).trans (by norm_num)
  rw [← value, single.nearestRank_magnitude]

theorem magnitude_one : single.magnitude (single.nearestRank 1) = 1 := by
  rw [nearestRank_one, magnitude_power]
  norm_num

theorem nearestRank_one_lt : single.nearestRank 1 < single.infinityRank := by
  rw [nearestRank_one]
  decide

/-- Up to one the nearest number is finite. -/
theorem ofMagnitude_unit (q : Rat) (nonneg : 0 ≤ q) (high : q ≤ 1) :
    ∃ s : FiniteNumber .single, ofMagnitude false q = .finite s ∧
      s.toRat = single.magnitude (single.nearestRank q) := by
  have bounded := (single.nearestRank_mono q 1 nonneg high).trans_lt nearestRank_one_lt
  exact ⟨⟨false, single.nearestRank q, bounded⟩, dif_pos bounded, rfl⟩

theorem half_eq : ∃ h : FiniteNumber .single, half = .finite h ∧ h.toRat = 1 / 2 := by
  obtain ⟨h, nearest, value⟩ := ofMagnitude_unit (1 / 2) (by norm_num) (by norm_num)
  exact ⟨h, (ofRat_of_nonneg _ (by norm_num)).trans nearest, value.trans magnitude_half⟩

theorem one_eq : ∃ o : FiniteNumber .single, one = .finite o ∧ o.toRat = 1 := by
  obtain ⟨o, nearest, value⟩ := ofMagnitude_unit 1 (by norm_num) le_rfl
  exact ⟨o, (ofRat_of_nonneg _ (by norm_num)).trans nearest, value.trans magnitude_one⟩

theorem zero_eq : ∃ z : FiniteNumber .single, zero false = .finite z ∧ z.toRat = 0 := by
  obtain ⟨z, nearest, value⟩ := ofMagnitude_unit 0 le_rfl (by norm_num)
  rw [nearestRank_zero, magnitude_zero] at value
  exact ⟨z, nearest, value⟩

/-- A quotient held between a half and one. -/
def held (quotient : Single) : Single :=
  if quotient.lt half then half else if one.lt quotient then one else quotient

theorem held_nan : held .nan = .nan := by
  have below : (nan : Single).lt half = false := rfl
  have above : one.lt .nan = false := by rw [lt, le_nan, Bool.false_and]
  rw [held, below, above]
  rfl

theorem held_bottom : held (.infinity true) = half := by
  obtain ⟨h, eq, _⟩ := half_eq
  rw [held, eq]
  rfl

theorem held_negative (q : Rat) : held (.ofMagnitude true q) = half := by
  rw [ofMagnitude]
  split
  · obtain ⟨h, eq, value⟩ := half_eq
    rw [held, eq, if_pos]
    rw [lt_finite_iff, value]
    exact (FiniteNumber.toRat_nonpos _ rfl).trans_lt (by norm_num)
  · exact held_bottom

theorem held_finite (s : FiniteNumber .single) (high : s.toRat ≤ 1) :
    held (.finite s) = if s.toRat < 1 / 2 then half else .finite s := by
  obtain ⟨h, halfEq, halfValue⟩ := half_eq
  obtain ⟨o, oneEq, oneValue⟩ := one_eq
  have within : ¬ (finite o).lt (.finite s) = true := by
    rw [lt_finite_iff, oneValue]
    exact not_lt.mpr high
  rw [held, oneEq, if_neg within, halfEq, ← halfValue]
  simp only [lt_finite_iff]

-- Below a half the quotient may still be rounded up to it; either way the half is what is held.
theorem held_positive (q : Rat) (nonneg : 0 ≤ q) (high : q ≤ 1) :
    held (.ofMagnitude false q) = .ofMagnitude false (max (1 / 2) q) := by
  obtain ⟨s, nearest, value⟩ := ofMagnitude_unit q nonneg high
  have ordered := single.nearestRank_mono
  have values := single.magnitude_strictMono
  have unit : s.toRat ≤ 1 := by
    rw [value, ← magnitude_one]
    exact values.monotone (ordered q 1 nonneg high)
  rw [nearest, held_finite s unit, value, ← nearest, ← magnitude_half]
  rcases le_total (1 / 2) q with reached | below
  · have above := values.monotone (ordered _ _ (by norm_num) reached)
    rw [if_neg (not_lt.mpr above), magnitude_half, max_eq_right reached]
  · rw [magnitude_half, max_eq_left below]
    split
    · exact ofRat_of_nonneg _ (by norm_num)
    · rename_i same
      rw [← magnitude_half, values.lt_iff_lt, not_lt] at same
      exact ofMagnitude_congr false _ _ (le_antisymm (ordered _ _ nonneg below) same)

section Scale

variable (width available : Single)

/-- Whether the text is shown as it is: it is not too wide, or has no width. -/
def Fits : Prop := width.le available = true ∨ width.le (.zero false) = true

/-- Whether there is no number for the scale. -/
def Unscaled : Prop :=
  width = .nan ∨ (available = .nan ∧ (Number.zero false).lt width = true) ∨
    (width = .infinity false ∧ available = .infinity true)

instance : Decidable (Fits width available) := inferInstanceAs (Decidable (_ ∨ _))

/-- The exact share of the width that is available. Of an infinite width nothing is. -/
def share : Rat :=
  if Fits width available then 1
  else
    match width, available with
    | .finite x, .finite y => y.toRat / x.toRat
    | _, _ => 0

theorem scale_of_fits (fits : Fits width available) : scale width available = one := by
  rw [scale, if_pos (by rwa [Bool.or_eq_true])]

theorem scale_of_exceeds (exceeds : ¬ Fits width available) :
    scale width available = held (available / width) := by
  rw [scale, if_neg (by rwa [Bool.or_eq_true])]
  rfl

theorem share_of_fits (fits : Fits width available) : share width available = 1 := if_pos fits

theorem share_of_exceeds (x y : FiniteNumber .single)
    (exceeds : ¬ Fits (.finite x) (.finite y)) :
    share (.finite x) (.finite y) = y.toRat / x.toRat := if_neg exceeds

end Scale

/-- What does not fit is wider than what is available, and than nothing. -/
theorem exceeds_iff (x y : FiniteNumber .single) :
    ¬ Fits (.finite x) (.finite y) ↔ 0 < x.toRat ∧ y.toRat < x.toRat := by
  obtain ⟨z, zeroEq, zeroValue⟩ := zero_eq
  rw [Fits, zeroEq, le_finite_iff, le_finite_iff, zeroValue, not_or, not_le, not_le, and_comm]

theorem positive_of_exceeds (x : FiniteNumber .single) (available : Single)
    (exceeds : ¬ Fits (.finite x) available) : 0 < x.toRat := by
  obtain ⟨z, zeroEq, zeroValue⟩ := zero_eq
  rw [Fits, not_or, zeroEq, le_finite_iff, zeroValue] at exceeds
  exact not_le.mp exceeds.2

theorem held_quotient (x y : FiniteNumber .single) (positive : 0 < x.toRat)
    (exceeds : y.toRat < x.toRat) :
    held (.finite y / .finite x) = .ofRat false (max (1 / 2) (y.toRat / x.toRat)) := by
  have quotient : (.finite y / .finite x : Single) =
      .ofMagnitude y.negative (y.magnitude / x.toRat) := x.div_of_pos y positive
  rw [quotient]
  cases sign : y.negative with
  | true =>
      have low := div_nonpos_of_nonpos_of_nonneg (y.toRat_nonpos sign) positive.le
      rw [held_negative, max_eq_left (by linarith)]
      rfl
  | false =>
      have value := y.toRat_unsigned sign
      have nonneg : 0 ≤ y.magnitude / x.toRat := div_nonneg y.magnitude_nonneg positive.le
      have high : y.magnitude / x.toRat ≤ 1 := (div_le_one positive).mpr (value ▸ exceeds.le)
      rw [held_positive _ nonneg high, value, ofRat_of_nonneg _ (le_max_of_le_right nonneg)]

/-- Where there is a scale, it is the number nearest to the share, a half at least. -/
theorem scale_nearest (width available : Single) (scaled : ¬ Unscaled width available) :
    scale width available = .ofRat false (max (1 / 2) (share width available)) := by
  by_cases fits : Fits width available
  · rw [scale_of_fits width available fits, share_of_fits width available fits,
      max_eq_right (by norm_num)]
    rfl
  have withoutShare (empty : share width available = 0) :
      half = .ofRat false (max (1 / 2) (share width available)) := by
    rw [empty, max_eq_left (by norm_num)]
    rfl
  obtain ⟨z, zeroEq, zeroValue⟩ := zero_eq
  rw [scale_of_exceeds width available fits]
  rcases width with _ | (_ | _) | x
  · exact absurd (Or.inl rfl) scaled
  · rcases available with _ | (_ | _) | y
    · exact absurd (Or.inr (Or.inl ⟨rfl, by rw [zeroEq]; rfl⟩)) scaled
    · exact absurd (Or.inl rfl) fits
    · exact absurd (Or.inr (Or.inr ⟨rfl, rfl⟩)) scaled
    · rw [← withoutShare (if_neg fits)]
      change held (.ofMagnitude (y.negative != false) 0) = half
      cases y.negative with
      | true => exact held_negative 0
      | false =>
          rw [Bool.bne_false, held_positive 0 le_rfl (by norm_num), max_eq_left (by norm_num)]
          exact (ofRat_of_nonneg _ (by norm_num)).symm
  · exact absurd (Or.inr (by rw [zeroEq]; rfl)) fits
  · have positive := positive_of_exceeds x available fits
    rcases available with _ | (_ | _) | y
    · refine absurd (Or.inr (Or.inl ⟨rfl, ?_⟩)) scaled
      rw [zeroEq, lt_finite_iff, zeroValue]
      exact positive
    · exact absurd (Or.inl rfl) fits
    · rw [← withoutShare (if_neg fits)]
      change held (.infinity (true != x.negative)) = half
      rw [x.sign_of_pos positive]
      exact held_bottom
    · rw [share_of_exceeds x y fits]
      exact held_quotient x y positive ((exceeds_iff x y).mp fits).2

theorem scale_unscaled (width available : Single) (unscaled : Unscaled width available) :
    scale width available = .nan := by
  obtain ⟨z, zeroEq, zeroValue⟩ := zero_eq
  rcases unscaled with rfl | ⟨rfl, positive⟩ | ⟨rfl, rfl⟩
  · have quotient : available / (.nan : Single) = .nan := by
      rcases available with _ | negative | y <;> rfl
    have exceeds : ¬ Fits .nan available := by
      rintro (ordered | ordered) <;> cases ordered
    rw [scale_of_exceeds _ _ exceeds, quotient, held_nan]
  · have exceeds : ¬ Fits width .nan := by
      rw [lt, Bool.and_eq_true, Bool.not_eq_true'] at positive
      rw [Fits, le_nan, positive.2]
      simp
    rw [scale_of_exceeds _ _ exceeds]
    exact held_nan
  · have exceeds : ¬ Fits (.infinity false) (.infinity true) := by
      rw [Fits, zeroEq]
      rintro (ordered | ordered) <;> cases ordered
    rw [scale_of_exceeds _ _ exceeds]
    exact held_nan

/-- The share is a quotient of two numbers, or there is none of it. -/
theorem share_cases (width available : Single) (exceeds : ¬ Fits width available) :
    (∃ x y : FiniteNumber .single, width = .finite x ∧ available = .finite y ∧
      0 < x.toRat ∧ y.toRat < x.toRat ∧ share width available = y.toRat / x.toRat) ∨
    share width available = 0 := by
  rcases width with _ | negative | x
  · exact Or.inr (if_neg exceeds)
  · exact Or.inr (if_neg exceeds)
  · rcases available with _ | negative | y
    · exact Or.inr (if_neg exceeds)
    · exact Or.inr (if_neg exceeds)
    · have wide := (exceeds_iff x y).mp exceeds
      exact Or.inl ⟨x, y, rfl, rfl, wide.1, wide.2, share_of_exceeds x y exceeds⟩

theorem share_le_one (width available : Single) : share width available ≤ 1 := by
  by_cases fits : Fits width available
  · exact (share_of_fits width available fits).le
  · rcases share_cases width available fits with ⟨x, y, _, _, positive, wide, eq⟩ | eq
    · rw [eq]
      exact (div_le_one positive).mpr wide.le
    · rw [eq]
      norm_num

theorem fits_of_wider (width wider available : Single) (ordered : width.le wider = true)
    (fits : Fits wider available) : Fits width available :=
  fits.imp (Number.le_trans _ _ _ ordered) (Number.le_trans _ _ _ ordered)

theorem fits_of_more (width available more : Single) (ordered : available.le more = true)
    (fits : Fits width available) : Fits width more :=
  fits.imp_left fun narrow => Number.le_trans _ _ _ narrow ordered

theorem share_wider (width wider available : Single) (ordered : width.le wider = true) :
    max (1 / 2) (share wider available) ≤ max (1 / 2) (share width available) := by
  apply max_le (le_max_left _ _)
  by_cases fits : Fits width available
  · rw [share_of_fits width available fits]
    exact le_max_of_le_right (share_le_one wider available)
  have wide := mt (fits_of_wider width wider available ordered) fits
  rcases share_cases wider available wide with ⟨z, y, rfl, rfl, positive, _, eq⟩ | eq
  · rcases width with _ | (_ | _) | x
    · cases ordered
    · cases ordered
    · exact absurd (Or.inl rfl) fits
    · have start := ((exceeds_iff x y).mp fits).1
      rw [le_finite_iff] at ordered
      rw [eq, share_of_exceeds x y fits]
      rcases le_total 0 y.toRat with nonneg | nonpos
      · exact le_max_of_le_right (div_le_div_of_nonneg_left nonneg start ordered)
      · have nothing := div_nonpos_of_nonpos_of_nonneg nonpos positive.le
        exact le_max_of_le_left (nothing.trans (by norm_num))
  · rw [eq]
    exact le_max_of_le_left (by norm_num)

theorem share_more (width available more : Single) (ordered : available.le more = true) :
    max (1 / 2) (share width available) ≤ max (1 / 2) (share width more) := by
  apply max_le (le_max_left _ _)
  by_cases fits : Fits width more
  · rw [share_of_fits width more fits]
    exact le_max_of_le_right (share_le_one width available)
  have wide := mt (fits_of_more width available more ordered) fits
  rcases share_cases width available wide with ⟨x, y, rfl, rfl, positive, _, eq⟩ | eq
  · rcases more with _ | (_ | _) | z
    · rw [le_nan] at ordered
      cases ordered
    · exact absurd (Or.inl rfl) fits
    · cases ordered
    · rw [le_finite_iff] at ordered
      rw [eq, share_of_exceeds x z fits]
      exact le_max_of_le_right (div_le_div_of_nonneg_right ordered positive.le)
  · rw [eq]
    exact le_max_of_le_left (by norm_num)

/-- Between a half and one the nearest number stays there, as both ends are values. -/
theorem nearest_unit (q : Rat) (low : 1 / 2 ≤ q) (high : q ≤ 1) :
    ∃ s : FiniteNumber .single, Number.ofRat false q = .finite s ∧
      s.toRat = single.magnitude (single.nearestRank q) ∧ 1 / 2 ≤ s.toRat ∧ s.toRat ≤ 1 := by
  have nonneg : 0 ≤ q := one_half_pos.le.trans low
  obtain ⟨s, nearest, value⟩ := ofMagnitude_unit q nonneg high
  have values := single.magnitude_strictMono.monotone
  refine ⟨s, (ofRat_of_nonneg q nonneg).trans nearest, value, ?_, ?_⟩
  · rw [value, ← magnitude_half]
    exact values (single.nearestRank_mono _ _ (by norm_num) low)
  · rw [value, ← magnitude_one]
    exact values (single.nearestRank_mono _ _ nonneg high)

theorem nearest_unit_mono (q r : Rat) (low : 1 / 2 ≤ q) (ordered : q ≤ r) (high : r ≤ 1) :
    (Number.ofRat false q : Single).le (.ofRat false r) = true := by
  obtain ⟨s, left, leftValue, _⟩ := nearest_unit q low (ordered.trans high)
  obtain ⟨t, right, rightValue, _⟩ := nearest_unit r (low.trans ordered) high
  rw [left, right, le_finite_iff, leftValue, rightValue]
  exact single.magnitude_strictMono.monotone
    (single.nearestRank_mono q r (one_half_pos.le.trans low) ordered)

theorem heldShare_le_one (width available : Single) :
    max (1 / 2) (share width available) ≤ 1 :=
  max_le (by norm_num) (share_le_one width available)

theorem scale_nan_iff (width available : Single) :
    scale width available = .nan ↔ Unscaled width available := by
  constructor
  · intro isNan
    by_contra scaled
    obtain ⟨s, finite, _⟩ := nearest_unit _ (le_max_left _ _) (heldShare_le_one width available)
    rw [scale_nearest width available scaled, finite] at isNan
    cases isNan
  · exact scale_unscaled width available

/-- The scale is no number just where the width is none, where what is available is none and the
width is positive, or where the two are opposite infinities. Otherwise it is the number nearest to
the share of the width that is available, held between a half and one; it is one for a text that
is not too wide, it does not grow with the width and does not fall with what is available. -/
theorem scale_exact (width available : Single) :
    (scale width available = .nan ↔
      width = .nan ∨ (available = .nan ∧ (Number.zero false).lt width = true) ∨
        (width = .infinity false ∧ available = .infinity true)) ∧
    (scale width available ≠ .nan →
      (scale width available).IsNearest false (max (1 / 2) (share width available)) ∧
      ∃ s, scale width available = .finite s ∧ 1 / 2 ≤ s.toRat ∧ s.toRat ≤ 1) ∧
    (width.le available = true ∨ width.le (.zero false) = true →
      ∃ s, scale width available = .finite s ∧ s.toRat = 1) ∧
    (∀ wider, width.le wider = true → scale width available ≠ .nan →
      scale wider available ≠ .nan → (scale wider available).le (scale width available) = true) ∧
    (∀ more, available.le more = true → scale width available ≠ .nan →
      scale width more ≠ .nan → (scale width available).le (scale width more) = true) := by
  have nearest (width available : Single) (isNumber : scale width available ≠ .nan) :
      scale width available = .ofRat false (max (1 / 2) (share width available)) :=
    scale_nearest width available (mt (scale_nan_iff width available).mpr isNumber)
  refine ⟨scale_nan_iff width available, ?_, ?_, ?_, ?_⟩
  · intro isNumber
    have eq := nearest width available isNumber
    obtain ⟨s, finite, _, low, high⟩ :=
      nearest_unit _ (le_max_left _ _) (heldShare_le_one width available)
    exact ⟨(isNearest_iff _ _ _ (by decide)).mpr eq, s, eq.trans finite, low, high⟩
  · intro fits
    rw [scale_of_fits width available fits]
    exact one_eq
  · intro wider ordered isNumber widerNumber
    rw [nearest width available isNumber, nearest wider available widerNumber]
    exact nearest_unit_mono _ _ (le_max_left _ _) (share_wider width wider available ordered)
      (heldShare_le_one width available)
  · intro more ordered isNumber moreNumber
    rw [nearest width available isNumber, nearest width more moreNumber]
    exact nearest_unit_mono _ _ (le_max_left _ _) (share_more width available more ordered)
      (heldShare_le_one width more)

end Fit

end DeskCalculator
