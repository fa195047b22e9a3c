import DeskCalculator.Evaluation

/-!
The shape of what is shown. A decimal is written as digits with a point or without, or as one
digit other than zero, its fraction and an exponent, and a minus may stand in front. A text
that evaluates is replaced by the text of a decimal, whatever it computed.
-/

namespace DeskCalculator

theorem digitsOf_isDigit (n : Nat) : ∀ c ∈ digitsOf n, c.isDigit = true := by
  intro c member
  exact Nat.isDigit_of_mem_toDigits (by decide) (by decide) member

theorem digitChar_ne_zero (n : Nat) (small : n < 10) (nonzero : n ≠ 0) : n.digitChar ≠ '0' := by
  have digits : ∀ m < 10, m ≠ 0 → Nat.digitChar m ≠ '0' := by decide
  exact digits n small nonzero

theorem digitsOf_nonzero (n : Nat) (nonzero : n ≠ 0) :
    ∃ lead rest, digitsOf n = lead :: rest ∧ lead ≠ '0' := by
  induction n using Nat.base_induction 10 (by decide) with
  | single n small =>
      exact ⟨n.digitChar, [], Nat.toDigits_of_lt_base small, digitChar_ne_zero n small nonzero⟩
  | digit n last small positive ih =>
      rcases ih (by omega) with ⟨lead, rest, split, leadNonzero⟩
      have joined := Nat.toDigits_append_toDigits (b := 10) (by decide) positive small
      refine ⟨lead, rest ++ digitsOf last, ?_, leadNonzero⟩
      rw [digitsOf, ← joined, ← digitsOf, split]
      rfl

/-- Digits with more digits behind a point, or without a point. -/
def IsPlainText (text : Text) : Prop :=
  ∃ whole fraction, text = whole ++ pointed fraction ∧ whole ≠ [] ∧
    (∀ c ∈ whole, c.isDigit = true) ∧ ∀ c ∈ fraction, c.isDigit = true

/-- A plain text with nothing superfluous: no zero in front of other digits of the whole, and
none at the end of the fraction. -/
def IsPlainNumeral (text : Text) : Prop :=
  ∃ whole fraction, text = whole ++ pointed fraction ∧ whole ≠ [] ∧
    (∀ c ∈ whole, c.isDigit = true) ∧ (∀ c ∈ fraction, c.isDigit = true) ∧
    (whole.head? = some '0' → whole = ['0']) ∧ fraction.getLast? ≠ some '0'

theorem IsPlainNumeral.isPlainText {text : Text} (numeral : IsPlainNumeral text) :
    IsPlainText text := by
  obtain ⟨whole, fraction, split, present, wholeDigits, fractionDigits, _⟩ := numeral
  exact ⟨whole, fraction, split, present, wholeDigits, fractionDigits⟩

/-- One digit other than zero with digits behind a point, or without a point. -/
def IsNormalized (text : Text) : Prop :=
  ∃ lead fraction, text = lead :: pointed fraction ∧ lead.isDigit = true ∧ lead ≠ '0' ∧
    ∀ c ∈ fraction, c.isDigit = true

namespace Decimal

theorem writtenDigits_isDigit (d : Decimal) : ∀ c ∈ d.writtenDigits, c.isDigit = true := by
  intro c member
  have kept := List.dropWhile_subset _ (List.mem_reverse.mp member)
  exact digitsOf_isDigit d.digits c (List.mem_reverse.mp kept)

theorem writtenDigits_nonzero (d : Decimal) (nonzero : d.digits ≠ 0) :
    ∃ lead rest, d.writtenDigits = lead :: rest ∧ lead ≠ '0' := by
  rcases digitsOf_nonzero d.digits nonzero with ⟨lead, rest, split, leadNonzero⟩
  -- Reversed, the leading digit is the last one, where the dropping stops at the latest.
  have stays : [lead].dropWhile (· == '0') = [lead] := by simp [leadNonzero]
  rw [writtenDigits, split, List.reverse_cons, List.dropWhile_append, stays]
  split
  · exact ⟨lead, [], rfl, leadNonzero⟩
  · exact ⟨lead, _, by rw [List.reverse_append]; rfl, leadNonzero⟩

theorem writtenDigits_getLast (d : Decimal) : d.writtenDigits.getLast? ≠ some '0' := by
  have stops := List.head?_dropWhile_not (· == '0') (digitsOf d.digits).reverse
  intro zero
  rw [writtenDigits, List.getLast?_reverse] at zero
  simp [zero] at stops

theorem plainText_numeral (d : Decimal) (nonzero : d.digits ≠ 0) :
    IsPlainNumeral d.plainText := by
  have written := d.writtenDigits_isDigit
  have ends := d.writtenDigits_getLast
  obtain ⟨lead, rest, split, leadNonzero⟩ := d.writtenDigits_nonzero nonzero
  by_cases small : d.leading < 0
  · rw [plainText, if_pos small]
    refine ⟨['0'], _, rfl, by simp, by simp, ?_, by simp, ?_⟩
    · intro c member
      rcases List.mem_append.mp member with zero | digit
      · rw [List.eq_of_mem_replicate zero]
        rfl
      · exact written c digit
    · rw [split] at ends ⊢
      simpa [List.getLast?_append, List.getLast?_cons] using ends
  · rw [plainText, if_neg small]
    refine ⟨_, _, rfl, ?_, ?_, ?_, ?_, ?_⟩
    · simp [split, List.rightpad]
    · intro c member
      rcases List.mem_append.mp member with digit | zero
      · exact written c (List.mem_of_mem_take digit)
      · rw [List.eq_of_mem_replicate zero]
        rfl
    · intro c member
      exact written c (List.mem_of_mem_drop member)
    · -- The whole starts with the leading digit.
      simp [split, List.rightpad, leadNonzero]
    · rw [List.getLast?_drop]
      split
      · simp
      · exact ends

theorem scientificText_shape (d : Decimal) (nonzero : d.digits ≠ 0) :
    ∃ lead fraction, d.scientificText = lead :: pointed fraction ++ 'e' :: textOfInt d.leading ∧
      lead.isDigit = true ∧ lead ≠ '0' ∧ (∀ c ∈ fraction, c.isDigit = true) ∧
      fraction.getLast? ≠ some '0' := by
  have written := d.writtenDigits_isDigit
  have ends := d.writtenDigits_getLast
  obtain ⟨lead, rest, split, leadNonzero⟩ := d.writtenDigits_nonzero nonzero
  rw [split] at written ends
  refine ⟨lead, rest, ?_, written lead List.mem_cons_self, leadNonzero, ?_, ?_⟩
  · rw [scientificText, split]
    rfl
  · intro c member
    exact written c (List.mem_cons_of_mem lead member)
  · intro zero
    simp [List.getLast?_cons, zero] at ends

/-- Every decimal is shown plain or in scientific notation, with a minus or without. -/
theorem text_shape (d : Decimal) :
    ∃ unsigned, (d.text = unsigned ∨ d.text = '-' :: unsigned) ∧
      (IsPlainText unsigned ∨ ∃ mantissa exponent,
        unsigned = mantissa ++ 'e' :: textOfInt exponent ∧ IsNormalized mantissa) := by
  by_cases zero : d.digits = 0
  · rw [text, if_pos zero]
    exact ⟨['0'], Or.inl rfl, Or.inl ⟨['0'], [], rfl, by simp, by simp, by simp⟩⟩
  · rw [text, if_neg zero]
    refine ⟨if d.isPlain then d.plainText else d.scientificText, ?_, ?_⟩
    · cases d.negative with
      | false => exact Or.inl rfl
      | true => exact Or.inr rfl
    · by_cases plain : d.isPlain = true
      · rw [if_pos plain]
        exact Or.inl (d.plainText_numeral zero).isPlainText
      · rw [if_neg plain]
        obtain ⟨lead, fraction, written, digit, nonzero, inside, _⟩ := d.scientificText_shape zero
        exact Or.inr ⟨lead :: pointed fraction, d.leading, written, lead, fraction, rfl, digit,
          nonzero, inside⟩

end Decimal

theorem evaluate_displayed (text shown : Text) (evaluated : evaluate text = .ok shown) :
    ∃ x : FiniteNumber .double, display (.finite x) = .ok shown := by
  by_cases blank : text.all isBlank = true
  · rw [evaluate, if_pos blank] at evaluated
    cases evaluated
  · rw [evaluate, if_neg blank] at evaluated
    cases value : (Request.ofText (normalize text)).value with
    | error problem =>
        rw [value] at evaluated
        cases evaluated
    | ok v =>
        rw [value] at evaluated
        cases v with
        | finite x => exact ⟨x, evaluated⟩
        | infinity negative => cases evaluated
        | nan => cases evaluated

theorem evaluate_shown (text shown : Text) (evaluated : evaluate text = .ok shown) :
    ∃ d : Decimal, shown = d.text := by
  obtain ⟨x, displayed⟩ := evaluate_displayed text shown evaluated
  cases displayed
  exact ⟨x.rounded.toDecimal, rfl⟩

end DeskCalculator
