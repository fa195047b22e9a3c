import DeskCalculator.Buffer
import DeskCalculator.Proofs.AcceptedText
import DeskCalculator.Proofs.RoundedResult
import DeskCalculator.Proofs.WrittenNumber

/-!
A result that is shown is read again. Its text is one number to the scanner, whatever operator
follows, and that number is the rounded value it was shown for. So a calculation goes on with
what is on the display, and the equals key leaves a result as it is.
-/

namespace DeskCalculator

/-- The number that the text of a result is read as. A zero has lost its sign. -/
def FiniteNumber.shownNumber (x : FiniteNumber .double) : Double :=
  if x.isZero then .zero false else .finite x.rounded

theorem display_finite {f : BinaryFormat} (x : FiniteNumber f) :
    display (.finite x) = .ok x.rounded.toDecimal.text := rfl

theorem toDecimal_of_nonzero {f : BinaryFormat} (x : FiniteNumber f) (nonzero : x.rank ≠ 0) :
    x.toDecimal = .shortest x := by
  rw [FiniteNumber.toDecimal, if_neg (by rwa [FiniteNumber.isZero_iff])]

theorem shownText_of_zero {f : BinaryFormat} (x : FiniteNumber f) (zero : x.rank = 0) :
    x.rounded.toDecimal.text = ['0'] := by
  rw [FiniteNumber.rounded_eq, x.isExactInteger_of_zero zero, if_pos rfl, FiniteNumber.toDecimal,
    if_pos (x.isZero_iff.mpr zero)]
  rfl

theorem display_zero (negative : Bool) : display (.zero negative : Double) = .ok ['0'] :=
  (display_finite _).trans (congrArg Except.ok (shownText_of_zero _ rfl))

theorem Decimal.digits_of_readsAs {f : BinaryFormat} (d : Decimal) (x : FiniteNumber f)
    (nonzero : x.rank ≠ 0) (reads : d.readsAs x = true) : d.digits ≠ 0 := by
  intro zero
  have rank := ((readsAs_iff d x).mp reads).2
  rw [magnitude, zero, Nat.cast_zero, zero_mul, f.nearestRank_zero] at rank
  exact nonzero rank.symm

theorem ofText?_shortest {f : BinaryFormat} (x : FiniteNumber f) (nonzero : x.rank ≠ 0) :
    ∃ d : Decimal, Decimal.ofText? (Decimal.shortest x).text = some d ∧
      (d.nearest : Number f) = .finite x := by
  have digits := Decimal.digits_of_readsAs _ x nonzero (Decimal.shortest_readsAs x nonzero)
  obtain ⟨d, read, negative, magnitude⟩ := Decimal.ofText?_text _ digits
  refine ⟨d, read, ?_⟩
  rw [Decimal.nearest_eq_finite_iff, negative, magnitude]
  exact Decimal.shortest_reads x nonzero

theorem FiniteNumber.rounded_toDecimal {f : BinaryFormat} (x : FiniteNumber f)
    (nonzero : x.rank ≠ 0) :
    x.rounded.toDecimal.digits ≠ 0 ∧ x.rounded.toDecimal.negative = x.negative := by
  have kept := x.rounded_nonzero nonzero
  rw [toDecimal_of_nonzero _ kept]
  exact ⟨Decimal.digits_of_readsAs _ x.rounded kept (Decimal.shortest_readsAs x.rounded kept),
    (Decimal.shortest_reads x.rounded kept).1.trans x.rounded_negative⟩

/-- The text of a result is read as the number that is shown. -/
theorem ofText?_display (x : FiniteNumber .double) :
    ∃ d : Decimal, Decimal.ofText? x.rounded.toDecimal.text = some d ∧
      d.nearest = x.shownNumber := by
  by_cases zero : x.rank = 0
  · refine ⟨⟨false, 0, 0⟩, ?_, ?_⟩
    · rw [shownText_of_zero x zero]
      rfl
    · rw [FiniteNumber.shownNumber, if_pos (x.isZero_iff.mpr zero)]
      rfl
  · have kept := x.rounded_nonzero zero
    rw [toDecimal_of_nonzero _ kept, FiniteNumber.shownNumber, if_neg (by rwa [FiniteNumber.isZero_iff])]
    exact ofText?_shortest x.rounded kept

/-- The text of a result is one operand: the scanner reads it as the number that is shown, and
an operator behind it and what follows that as they are read without it. -/
theorem display_one_operand (x : FiniteNumber .double) :
    ∃ shown, display (.finite x) = .ok shown ∧ tokens shown = .ok [.number x.shownNumber] ∧
      ∀ (op : Operation) (rest : Text), tokens (shown ++ op.symbol :: rest) =
        match tokens rest with
        | .ok others => .ok (.number x.shownNumber :: .operator op :: others)
        | .error problem => .error problem := by
  obtain ⟨d, read, nearest⟩ := ofText?_display x
  refine ⟨_, display_finite x, ?_, ?_⟩
  · have scanned := tokensFrom_literal _ [] d read (stopsSpan_nil _)
    rw [List.append_nil, nearest, tokensFrom] at scanned
    exact scanned
  · intro op rest
    have ends : EndsLiteral (op.symbol :: rest) := by
      apply endsLiteral_of_head
      rintro c ⟨⟩
      exact Or.inr ⟨op, rfl⟩
    rw [tokens, tokensFrom_literal _ _ d read ends, tokensFrom_symbol, nearest, tokens]
    cases tokensFrom true rest with
    | ok others => rfl
    | error problem => rfl

theorem evaluate_number (text : Text) (d : Decimal) (read : Decimal.ofText? text = some d) :
    evaluate text = display (d.nearest : Double) := by
  have isLiteral : IsLiteral text := (ofText?_isSome_iff text).mp (by rw [read]; rfl)
  have kept := normalize_literal text isLiteral
  have scanned : tokens text = .ok (Postfix.infixTokens d.nearest []) := by
    have literal := tokensFrom_literal text [] d read (stopsSpan_nil _)
    rw [List.append_nil, tokensFrom] at literal
    exact literal
  have isInfix : IsInfix (normalize text) := by
    rw [kept]
    exact .operand ⟨[], text, [], by simp, by simp, isLiteral, by simp⟩
  rw [evaluate_of_isInfix text isInfix, kept]
  simp only [expressionValue, scanned, bind, Except.bind, Postfix.ofInfix_infixTokens,
    Postfix.reduce_infixTree]
  rfl

theorem display_shownNumber (x : FiniteNumber .double) :
    display x.shownNumber = display (.finite x) := by
  by_cases zero : x.rank = 0
  · rw [FiniteNumber.shownNumber, if_pos (x.isZero_iff.mpr zero), display_zero, display_finite,
      shownText_of_zero x zero]
  · rw [FiniteNumber.shownNumber, if_neg (by rwa [FiniteNumber.isZero_iff]), display_finite, display_finite,
      x.rounded_rounded]

theorem evaluate_display (x : FiniteNumber .double) (shown : Text)
    (displayed : display (.finite x) = .ok shown) : evaluate shown = .ok shown := by
  obtain ⟨d, read, nearest⟩ := ofText?_display x
  have same : x.rounded.toDecimal.text = shown := by
    rw [display_finite] at displayed
    exact Except.ok.inj displayed
  rw [same] at read
  rw [evaluate_number shown d read, nearest, display_shownNumber, displayed]

theorem evaluate_shown_again (text shown : Text) (evaluated : evaluate text = .ok shown) :
    evaluate shown = .ok shown := by
  obtain ⟨x, displayed⟩ := evaluate_displayed text shown evaluated
  exact evaluate_display x shown displayed

/-- A result evaluates to itself, so a second press of the equals key changes nothing. -/
theorem result_stable :
    (∀ text shown, evaluate text = .ok shown → evaluate shown = .ok shown) ∧
      ∀ buffer, Buffer.press (Buffer.press buffer .equals) .equals =
        Buffer.press buffer .equals := by
  refine ⟨evaluate_shown_again, ?_⟩
  intro buffer
  change Buffer.result (Buffer.result buffer) = Buffer.result buffer
  cases outcome : evaluate buffer with
  | ok shown =>
      rw [Buffer.result_of_ok buffer shown outcome]
      exact Buffer.result_of_ok shown shown (evaluate_shown_again buffer shown outcome)
  | error problem =>
      rw [Buffer.result_of_error buffer problem outcome]
      exact Buffer.result_of_error buffer problem outcome

-- The largest number: rounded to fifteen digits it would overflow, so all of it is shown.
theorem result_stable_largest :
    evaluate "1.7976931348623157e308".toList = .ok "1.7976931348623157e308".toList := by
  have evaluated : evaluate "1797693134862315700e290".toList =
      .ok "1.7976931348623157e308".toList := by decide +kernel
  exact result_stable.1 _ _ evaluated

end DeskCalculator
