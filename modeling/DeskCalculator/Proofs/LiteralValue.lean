import DeskCalculator.Proofs.IntegerText
import DeskCalculator.Proofs.NearestValue

/-!
The number that a literal is read as: the one nearest to the value that it writes.
-/

namespace DeskCalculator

/-- Whether `x` is the number nearest to what a literal writes. A zero takes the sign that is
written. -/
def IsNearest (x : Double) (literal : Text) : Prop :=
  ∃ value, Denotes literal value ∧ x.IsNearest (literal.head? = some '-') value

theorem Decimal.nearest_eq_ofRat (d : Decimal) (nonzero : d.digits ≠ 0) (negativeZero : Bool) :
    (d.nearest : Double) = .ofRat negativeZero d.toRat := by
  have nonzeroValue : d.toRat ≠ 0 := by
    rw [← abs_ne_zero, d.abs_toRat]
    exact d.magnitude_ne_zero.mpr nonzero
  have sign : decide (d.toRat < 0) = d.negative := by
    rw [Bool.eq_iff_iff, decide_eq_true_eq]
    exact (d.negative_iff nonzero).symm
  rw [d.nearest_eq_ofMagnitude, Number.ofRat, if_neg nonzeroValue, sign, Number.ratAbs_eq,
    d.abs_toRat]

theorem Decimal.negative_of_ofText? (literal : Text) (d : Decimal)
    (read : ofText? literal = some d) : d.negative = decide (literal.head? = some '-') := by
  have signed : decide ((splitSign literal).1 = ['-']) = decide (literal.head? = some '-') := by
    cases literal with
    | nil => rfl
    | cons c rest =>
        by_cases minus : c = '-'
        · subst minus
          rfl
        · by_cases sign : isSign c = true <;> simp [splitSign, sign, minus]
  rw [← signed]
  simp only [ofText?] at read
  split at read
  · cases read
  · obtain ⟨_, _, rfl⟩ := Option.map_eq_some_iff.mp read
    rfl

theorem Decimal.nearest_eq_of_ofText? (literal : Text) (d : Decimal)
    (read : ofText? literal = some d) :
    (d.nearest : Double) = .ofRat (literal.head? = some '-') d.toRat := by
  by_cases nothing : d.digits = 0
  · have zero : d.toRat = 0 := by simp [toRat, magnitude, nothing]
    rw [zero, Number.ofRat, if_pos rfl, ← d.negative_of_ofText? literal read, nearest,
      if_pos nothing]
    rfl
  · exact d.nearest_eq_ofRat nothing _

/-- The number nearest to what is written is the one the reader gives. -/
theorem isNearest_iff (literal : Text) (d : Decimal) (read : Decimal.ofText? literal = some d)
    (x : Double) : IsNearest x literal ↔ x = d.nearest := by
  rw [d.nearest_eq_of_ofText? literal read, ← x.isNearest_iff _ d.toRat (by decide)]
  constructor
  · rintro ⟨value, denotes, nearest⟩
    obtain ⟨other, same, rfl⟩ := (denotes_iff literal value).mp denotes
    rw [read, Option.some.injEq] at same
    rwa [same]
  · intro nearest
    exact ⟨d.toRat, (denotes_iff literal d.toRat).mpr ⟨d, read, rfl⟩, nearest⟩

theorem isNearest_iff_read (x : Double) (literal : Text) :
    IsNearest x literal ↔ ∃ d, Decimal.ofText? literal = some d ∧ d.nearest = x := by
  constructor
  · rintro ⟨value, denotes, nearest⟩
    obtain ⟨d, read, _⟩ := (denotes_iff literal value).mp denotes
    exact ⟨d, read, ((isNearest_iff literal d read x).mp ⟨value, denotes, nearest⟩).symm⟩
  · rintro ⟨d, read, value⟩
    exact (isNearest_iff literal d read x).mpr value.symm

theorem IsNearest.isLiteral {x : Double} {literal : Text} (nearest : IsNearest x literal) :
    IsLiteral literal := by
  obtain ⟨d, read, _⟩ := (isNearest_iff_read x literal).mp nearest
  exact (ofText?_isSome_iff literal).mp (by rw [read]; rfl)

end DeskCalculator
