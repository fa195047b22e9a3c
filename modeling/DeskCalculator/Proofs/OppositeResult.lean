import DeskCalculator.Proofs.KeptDigits
import DeskCalculator.Proofs.ResultShape
import DeskCalculator.Proofs.EditingKeys

/-!
Results of opposite numbers. Reading, rounding and the search for the shortest decimal look at
magnitudes alone and carry the sign along, so a number and its opposite are written with the same
digits. On a result the sign key therefore gives the result of the opposite number.
-/

namespace DeskCalculator

variable {f : BinaryFormat}

/-- The decimal with the other sign. -/
def Decimal.neg (d : Decimal) : Decimal := { d with negative := !d.negative }

theorem Number.ofMagnitude_not (negative : Bool) (q : Rat) :
    (ofMagnitude (!negative) q : Number f) = -ofMagnitude negative q := by
  simp only [ofMagnitude]
  split
  · rfl
  · rfl

namespace Decimal

theorem nearest_neg (d : Decimal) : (d.neg.nearest : Number f) = -d.nearest := by
  rw [nearest_eq_ofMagnitude, nearest_eq_ofMagnitude]
  exact Number.ofMagnitude_not d.negative d.magnitude

theorem readsAs_neg (d : Decimal) (x : FiniteNumber f) : d.neg.readsAs x.neg = d.readsAs x := by
  rw [Bool.eq_iff_iff, readsAs_iff, readsAs_iff]
  change ((!d.negative) = !x.negative ∧ _) ↔ _
  rw [Bool.not_inj_iff]
  rfl

theorem neighbour?_neg (x : FiniteNumber f) (count : Nat) :
    neighbour? x.neg count = (neighbour? x count).map neg := by
  have lower : (lowerNeighbour x.neg count).readsAs x.neg = (lowerNeighbour x count).readsAs x :=
    readsAs_neg (lowerNeighbour x count) x
  have upper : (upperNeighbour x.neg count).readsAs x.neg = (upperNeighbour x count).readsAs x :=
    readsAs_neg (upperNeighbour x count) x
  rw [neighbour?_eq, neighbour?_eq, lower, upper]
  cases (lowerNeighbour x count).readsAs x with
  | false => cases (upperNeighbour x count).readsAs x <;> rfl
  | true =>
      cases (upperNeighbour x count).readsAs x with
      | false => rfl
      | true =>
          dsimp only
          rw [apply_ite (Option.map neg)]
          rfl

-- Of the counts that are tried, the same one succeeds for both signs.
theorem shortest_neg (x : FiniteNumber f) : shortest x.neg = (shortest x).neg := by
  have searched (counts : List Nat) :
      counts.findSome? (neighbour? x.neg) = (counts.findSome? (neighbour? x)).map neg := by
    rw [List.map_findSome?]
    exact congrArg (List.findSome? · counts) (funext (neighbour?_neg x))
  simp only [shortest, searched]
  cases ((List.range (natExponent 10 (f.binade * 2) + 2)).map (· + 1)).findSome?
      (neighbour? x) with
  | none => rfl
  | some d => rfl

theorem text_neg (d : Decimal) (nonzero : d.digits ≠ 0) :
    d.neg.text = if d.negative then d.unsignedText else '-' :: d.unsignedText := by
  rw [d.neg.text_nonzero nonzero]
  change (if !d.negative then '-' :: d.unsignedText else d.unsignedText) = _
  cases d.negative with
  | false => rfl
  | true => rfl

/-- The sign key turns the text of a decimal into the text of its opposite. -/
theorem toggleSign_text (d : Decimal) (nonzero : d.digits ≠ 0) :
    Buffer.toggleSign d.text = d.neg.text := by
  have written := Buffer.shown_wellFormed d
  have opposite := Buffer.shown_wellFormed d.neg
  rw [d.text_neg nonzero] at opposite ⊢
  rw [d.text_nonzero nonzero] at written ⊢
  cases negative : d.negative with
  | false =>
      rw [negative] at written opposite
      exact Buffer.toggleSign_unsigned d.unsignedText written.nonempty opposite.unsigned_tail
  | true =>
      rw [negative] at opposite
      exact Buffer.toggleSign_signed d.unsignedText opposite.nonempty

theorem toRat_neg (d : Decimal) : d.neg.toRat = -d.toRat := by
  change (if !d.negative then -d.magnitude else d.magnitude) =
    -if d.negative then -d.magnitude else d.magnitude
  cases d.negative <;> simp

end Decimal

namespace FiniteNumber

theorem toDecimal_neg (x : FiniteNumber f) : x.neg.toDecimal = x.toDecimal.neg := by
  have zero : x.neg.isZero = x.isZero := rfl
  rw [toDecimal, toDecimal, zero, Decimal.shortest_neg]
  cases x.isZero with
  | false => rfl
  | true => rfl

theorem rounded_neg (x : FiniteNumber f) : x.neg.rounded = x.rounded.neg := by
  have exact : x.neg.isExactInteger = x.isExactInteger := rfl
  have reading : (x.neg.shownDecimal.nearest : Number f) = -x.shownDecimal.nearest :=
    x.shownDecimal.nearest_neg
  rw [rounded_eq, rounded_eq, exact, reading]
  cases x.isExactInteger with
  | true => rfl
  | false => cases (x.shownDecimal.nearest : Number f) <;> rfl

end FiniteNumber

theorem display_neg (x : FiniteNumber f) :
    display (-.finite x : Number f) = .ok x.rounded.toDecimal.neg.text := by
  change display (.finite x.neg) = _
  rw [display_finite, x.rounded_neg, x.rounded.toDecimal_neg]

/-- A positive number is shown without a sign, and its opposite as the same behind a minus. -/
theorem display_neg_positive (x : FiniteNumber .double) (positive : 0 < x.toRat) :
    ∃ shown, display (.finite x) = .ok shown ∧
      display (-.finite x : Double) = .ok ('-' :: shown) := by
  have nonzero : x.rank ≠ 0 := fun zero => positive.ne' (x.toRat_eq_zero_iff.mpr zero)
  have unsigned : x.negative = false :=
    Bool.eq_false_iff.mpr fun negative => positive.asymm ((x.negative_iff nonzero).mp negative)
  obtain ⟨digits, sign⟩ := x.rounded_toDecimal nonzero
  rw [unsigned] at sign
  refine ⟨x.rounded.toDecimal.unsignedText, ?_, ?_⟩
  · rw [display_finite, Decimal.text_nonzero _ digits, sign]
    rfl
  · rw [display_neg, Decimal.text_neg _ digits, sign]
    rfl

/-- A result other than zero is toggled into the result of the opposite number, which has the
opposite value. -/
theorem display_neg_toggled (x : FiniteNumber .double) (shown : Text)
    (displayed : display (.finite x) = .ok shown) (notZero : shown ≠ ['0']) :
    display (-.finite x : Double) = .ok (Buffer.toggleSign shown) ∧
      ∃ v, v ≠ 0 ∧ Denotes shown v ∧ Denotes (Buffer.toggleSign shown) (-v) := by
  cases displayed
  have nonzero : x.rank ≠ 0 := fun zero => notZero (shownText_of_zero x zero)
  have digits := (x.rounded_toDecimal nonzero).1
  rw [Decimal.toggleSign_text _ digits]
  refine ⟨display_neg x, x.rounded.toDecimal.toRat, ?_, Decimal.text_denotes _, ?_⟩
  · rw [← abs_ne_zero, Decimal.abs_toRat]
    exact (Decimal.magnitude_ne_zero _).mpr digits
  · rw [← Decimal.toRat_neg]
    exact Decimal.text_denotes _

/-- Negation changes nothing of a result but its sign. The opposite of a positive number is shown
as the number behind a minus, and zeros of either sign are shown alike; so the sign key and then
the equals key take a result other than zero to the result of the opposite value. -/
theorem opposite_shown :
    (∀ x : FiniteNumber .double, 0 < x.toRat → ∃ shown,
      display (.finite x) = .ok shown ∧ display (-.finite x : Double) = .ok ('-' :: shown)) ∧
    (∀ x : FiniteNumber .double, x.toRat = 0 → display (.finite x) = .ok ['0']) ∧
    ∀ text shown, evaluate text = .ok shown → shown ≠ ['0'] →
      evaluate (Buffer.press shown .sign) = .ok (Buffer.press shown .sign) ∧
      Buffer.pressAll shown [.sign, .equals] = Buffer.press shown .sign ∧
      ∃ v, v ≠ 0 ∧ Denotes shown v ∧ Denotes (Buffer.press shown .sign) (-v) := by
  refine ⟨display_neg_positive, ?_, ?_⟩
  · intro x zero
    rw [display_finite, shownText_of_zero x (x.toRat_eq_zero_iff.mp zero)]
  · intro text shown evaluated notZero
    obtain ⟨x, displayed⟩ := evaluate_displayed text shown evaluated
    obtain ⟨toggled, opposite⟩ := display_neg_toggled x shown displayed notZero
    have again := evaluate_display x.neg _ toggled
    exact ⟨again, Buffer.result_of_ok _ _ again, opposite⟩

-- The least positive number, a zero with a sign, and a result whose exponent keeps its own sign.
theorem opposite_shown_scientific :
    (∃ shown, display (.finite (⟨false, 1, by decide⟩ : FiniteNumber .double)) = .ok shown ∧
      display (-.finite (⟨false, 1, by decide⟩ : FiniteNumber .double)) = .ok ('-' :: shown)) ∧
    display (.finite (⟨true, 0, by decide⟩ : FiniteNumber .double)) = .ok ['0'] ∧
    evaluate "1÷2000000".toList = .ok "5e-7".toList ∧
    evaluate "-5e-7".toList = .ok "-5e-7".toList := by
  let least : FiniteNumber .double := ⟨false, 1, by decide⟩
  let zero : FiniteNumber .double := ⟨true, 0, by decide⟩
  have positive : 0 < least.toRat := least.magnitude_pos_iff.mpr (by decide)
  have evaluated : evaluate "1÷2000000".toList = .ok "5e-7".toList := by decide +kernel
  have notZero : "5e-7".toList ≠ ['0'] := by decide
  exact ⟨opposite_shown.1 least positive,
    opposite_shown.2.1 zero (zero.toRat_eq_zero_iff.mpr rfl), evaluated,
    (opposite_shown.2.2 _ _ evaluated notZero).1⟩

end DeskCalculator
