import DeskCalculator.Proofs.AcceptedText
import DeskCalculator.Proofs.NearestDecimal
import DeskCalculator.Proofs.RoundedOperation
import DeskCalculator.Proofs.Typing
import Mathlib.Data.Rat.Floor
import Mathlib.Tactic.FieldSimp

/-!
Typing an expression computes it. The keys leave the text of the expression on the display,
the scanner reads the operands and operators that were typed, and the result is the value by
the order of operations, every operand being the number nearest to what was written.
-/

namespace DeskCalculator

/-- The exact value of digits with a point or none. -/
def writtenValue (literal : Text) : Rat :=
  digitsValue (literal.filter Char.isDigit) /
    (10 : Rat) ^ ((literal.dropWhile (· != '.')).drop 1).length

/-- The number nearest to what is written. -/
def literalNumber (literal : Text) : Double := .ofRat false (writtenValue literal)

theorem pointless_digits (digits : Text) (inside : ∀ c ∈ digits, c.isDigit = true) :
    ∀ c ∈ digits, (c != '.') = true := by
  intro c member
  have digit := inside c member
  rw [bne_iff_ne]
  rintro rfl
  exact absurd digit (by decide)

theorem writtenValue_parts (whole : Text) (fraction : Option Text)
    (wholeDigits : ∀ c ∈ whole, c.isDigit = true)
    (fractionDigits : ∀ c ∈ fraction.getD [], c.isDigit = true) :
    writtenValue (whole ++ pointPart fraction) =
      digitsValue (whole ++ fraction.getD []) / (10 : Rat) ^ (fraction.getD []).length := by
  have wholeKept := List.filter_eq_self.mpr wholeDigits
  have fractionKept := List.filter_eq_self.mpr fractionDigits
  have pointless := pointless_digits whole wholeDigits
  cases fraction with
  | none =>
      have skipped := dropWhile_span (· != '.') whole [] pointless (stopsSpan_nil _)
      rw [List.append_nil] at skipped
      simp [writtenValue, pointPart, wholeKept, skipped]
  | some behind =>
      have skipped := dropWhile_span (· != '.') whole ('.' :: behind) pointless
        ((stopsSpan_cons _ _ _).mpr (by decide))
      simp only [Option.getD_some] at fractionKept
      simp [writtenValue, pointPart, wholeKept, fractionKept, skipped]

theorem ofText?_literal (literal : Text) (isMantissa : IsMantissa literal) :
    ∃ d : Decimal, Decimal.ofText? literal = some d ∧ d.nearest = literalNumber literal := by
  rcases mantissa_parts literal isMantissa with
    ⟨whole, fraction, rfl, wholeDigits, fractionDigits, present⟩
  have read := ofText?_parts [] whole fraction [] (Or.inl rfl) wholeDigits fractionDigits
    present (Or.inl rfl)
  rw [List.append_nil, List.nil_append] at read
  refine ⟨_, read, ?_⟩
  have exact : digitsValue (whole ++ fraction.getD []) *
      (10 : Rat) ^ ((0 : Int) - (fraction.getD []).length) =
      writtenValue (whole ++ pointPart fraction) := by
    rw [writtenValue_parts whole fraction wholeDigits fractionDigits, zero_sub, zpow_neg,
      zpow_natCast, div_eq_mul_inv]
  have nonneg : 0 ≤ writtenValue (whole ++ pointPart fraction) :=
    div_nonneg (Nat.cast_nonneg _) (pow_nonneg (by norm_num) _)
  rw [Decimal.nearest_eq_ofMagnitude, literalNumber, Number.ofRat_of_nonneg _ nonneg, ← exact]
  rfl

theorem writtenValue_zeros (zeros rest : Text) (allZero : ∀ c ∈ zeros, c = '0') :
    writtenValue (zeros ++ rest) = writtenValue rest := by
  have zeroDigits : ∀ c ∈ zeros, c.isDigit = true := by
    intro c member
    rw [allZero c member]
    rfl
  have skipped : (zeros ++ rest).dropWhile (· != '.') = rest.dropWhile (· != '.') :=
    List.dropWhile_append_of_pos (pointless_digits zeros zeroDigits)
  rw [writtenValue, writtenValue, List.filter_append, List.filter_eq_self.mpr zeroDigits,
    digitsValue_zeros zeros _ allZero, skipped]

theorem isMantissa_withoutZeros (zeros rest : Text) (allZero : ∀ c ∈ zeros, c = '0')
    (stops : ∀ c ∈ rest.head?, c ≠ '0') (present : rest ≠ [])
    (isMantissa : IsMantissa (zeros ++ rest))
    (notBare : ∀ count, 0 < count → zeros ++ rest ≠ List.replicate count '0' ++ ['.']) :
    IsMantissa rest := by
  rcases isMantissa with ⟨inside, points, digit, member, isDigit⟩
  have restInside : ∀ c ∈ rest, c.isDigit = true ∨ c = '.' :=
    fun c inRest => inside c (List.mem_append_right zeros inRest)
  rw [List.count_append] at points
  refine ⟨restInside, by omega, ?_⟩
  cases rest with
  | nil => exact absurd rfl present
  | cons first tail =>
      rcases restInside first List.mem_cons_self with firstDigit | isPoint
      · exact ⟨first, List.mem_cons_self, firstDigit⟩
      · subst isPoint
        cases tail with
        | nil =>
            -- The digit of the number was among the zeros, and zeros with a point are excluded.
            have zeroThere : zeros ≠ [] := by
              rintro rfl
              rw [List.nil_append, List.mem_singleton] at member
              subst member
              exact absurd isDigit (by decide)
            exact absurd (by rw [← List.eq_replicate_of_mem allZero])
              (notBare zeros.length (List.length_pos_iff.mpr zeroThere))
        | cons next tail =>
            have nextInside := restInside next (by simp)
            rcases nextInside with nextDigit | secondPoint
            · exact ⟨next, by simp, nextDigit⟩
            · subst secondPoint
              simp only [List.count_cons_self] at points
              omega

theorem literal_withoutLeadingZeros (literal : Text) (isMantissa : IsMantissa literal)
    (notBare : ∀ count, 0 < count → literal ≠ List.replicate count '0' ++ ['.']) :
    IsMantissa (Buffer.withoutLeadingZeros literal) ∧
      literalNumber (Buffer.withoutLeadingZeros literal) = literalNumber literal := by
  rcases Buffer.leadingZeros_split literal with ⟨zeros, rest, rfl, allZero, stops⟩
  have sameValue := writtenValue_zeros zeros rest allZero
  cases rest with
  | nil =>
      have single := writtenValue_zeros ['0'] [] (by simp)
      rw [List.append_nil] at sameValue single ⊢
      rw [Buffer.withoutLeadingZeros_zeros zeros allZero, literalNumber, literalNumber, single,
        sameValue]
      exact ⟨⟨by simp, by decide, '0', by decide⟩, rfl⟩
  | cons first tail =>
      rw [Buffer.withoutLeadingZeros_append zeros first tail allZero (stops first rfl),
        literalNumber, literalNumber, sameValue]
      exact ⟨isMantissa_withoutZeros zeros (first :: tail) allZero stops (by simp) isMantissa
        notBare, rfl⟩

theorem normalize_mantissa (text : Text) (isMantissa : IsMantissa text) :
    normalize text = text :=
  normalize_literal text
    ⟨[], text, [], (List.append_nil text).symm, Or.inl rfl, isMantissa, Or.inl rfl⟩

-- The induction is on the pairs, with the operand before them arbitrary: behind an operator
-- the rest is a shorter expression.
theorem tokens_infixText (first : Text) (rest : List (Operation × Text))
    (firstLiteral : IsMantissa first) (literals : ∀ pair ∈ rest, IsMantissa pair.2) :
    tokens (normalize (infixText first rest)) =
      .ok (Postfix.infixTokens (literalNumber first)
        (rest.map fun pair => (pair.1, literalNumber pair.2))) := by
  induction rest generalizing first with
  | nil =>
      rcases ofText?_literal first firstLiteral with ⟨d, read, nearest⟩
      have scanned := tokensFrom_literal first [] d read (stopsSpan_nil _)
      rw [List.append_nil] at scanned
      simp only [infixText, List.flatMap_nil, List.append_nil]
      rw [normalize_mantissa first firstLiteral, tokens, scanned, nearest, tokensFrom]
      rfl
  | cons pair rest ih =>
      rcases ofText?_literal first firstLiteral with ⟨d, read, nearest⟩
      have later := ih pair.2 (literals pair List.mem_cons_self)
        fun other member => literals other (List.mem_cons_of_mem pair member)
      have split : normalize (infixText first (pair :: rest)) =
          first ++ pair.1.symbol :: normalize (infixText pair.2 rest) := by
        have kept := normalize_mantissa first firstLiteral
        rw [normalize] at kept
        simp [normalize, infixText, kept, Operation.arithmeticSymbol_glyph]
      have ends : EndsLiteral (pair.1.symbol :: normalize (infixText pair.2 rest)) := by
        apply endsLiteral_of_head
        rintro c ⟨⟩
        exact Or.inr ⟨pair.1, rfl⟩
      rw [tokens] at later
      rw [split, tokens, tokensFrom_literal first _ d read ends, tokensFrom_symbol, later,
        nearest]
      rfl

def typedValue (first : Text) (rest : List (Operation × Text)) : Double :=
  Postfix.infixValue Operation.apply (literalNumber first)
    (rest.map fun pair => (pair.1, literalNumber pair.2))

theorem evaluate_infixText (first : Text) (rest : List (Operation × Text))
    (firstLiteral : IsMantissa first) (literals : ∀ pair ∈ rest, IsMantissa pair.2) :
    evaluate (infixText first rest) = display (typedValue first rest) := by
  have read := tokens_infixText first rest firstLiteral literals
  have isInfix : IsInfix (normalize (infixText first rest)) :=
    (tokens_alternate_iff _).mp ⟨_, read, Postfix.alternates_infixTokens _ _⟩
  rw [evaluate_of_isInfix _ isInfix]
  simp only [expressionValue, read, bind, Except.bind, Postfix.ofInfix_infixTokens,
    Postfix.reduce_infixTree, typedValue]

theorem evaluate_withoutLeadingZeros (first : Text) (rest : List (Operation × Text))
    (firstLiteral : IsMantissa first)
    (notBare : ∀ count, 0 < count → first ≠ List.replicate count '0' ++ ['.'])
    (literals : ∀ pair ∈ rest, IsMantissa pair.2) :
    evaluate (infixText (Buffer.withoutLeadingZeros first) rest) =
      display (typedValue first rest) := by
  obtain ⟨stripped, value⟩ := literal_withoutLeadingZeros first firstLiteral notBare
  rw [evaluate_infixText _ rest stripped literals, typedValue, value, typedValue]

/-- The keys of an expression between a clear and an equals key leave the text typed, evaluated. -/
theorem pressAll_typed (buffer : Buffer) (first : Text) (rest : List (Operation × Text))
    (keys : List Key) (firstLiteral : IsMantissa first)
    (literals : ∀ pair ∈ rest, IsMantissa pair.2)
    (spelled : keys.map Key.label = (infixText first rest).map fun c => [c]) :
    Buffer.pressAll buffer (.clear :: (keys ++ [.equals])) =
      Buffer.result (infixText (Buffer.withoutLeadingZeros first) rest) := by
  have typed := Buffer.pressAll_infixText buffer first rest keys firstLiteral literals spelled
  rw [← List.cons_append, Buffer.pressAll_append, typed]
  rfl

/-- After a clear, the keys of an expression and the equals key, the display shows the value
of the expression, or what was typed when that value is not finite. The operands are the numbers
nearest to what was typed, and each operation gives the number nearest to its exact result. -/
theorem typed_expression_exact (buffer : Buffer) (first : Text)
    (rest : List (Operation × Text)) (keys : List Key) (firstLiteral : IsMantissa first)
    (notBare : ∀ count, 0 < count → first ≠ List.replicate count '0' ++ ['.'])
    (literals : ∀ pair ∈ rest, IsMantissa pair.2)
    (spelled : keys.map Key.label = (infixText first rest).map fun c => [c]) :
    (∀ x, typedValue first rest = .finite x → display (.finite x) =
      .ok (Buffer.pressAll buffer (.clear :: (keys ++ [.equals])))) ∧
    ((¬∃ x, typedValue first rest = .finite x) →
      Buffer.pressAll buffer (.clear :: (keys ++ [.equals])) =
        infixText (Buffer.withoutLeadingZeros first) rest) ∧
    (∀ literal, (literalNumber literal).IsNearest false (writtenValue literal)) ∧
    ∀ (op : Operation) (x y : FiniteNumber .double), (op = .divide → y.toRat ≠ 0) →
      (op.apply (.finite x) (.finite y)).IsNearest (op.negativeZero x.negative y.negative)
        (op.exact x.toRat y.toRat) := by
  have outcome := evaluate_withoutLeadingZeros first rest firstLiteral notBare literals
  rw [pressAll_typed buffer first rest keys firstLiteral literals spelled]
  refine ⟨?_, ?_, ?_, fun op x y => op.apply_isNearest x y (by decide)⟩
  · intro x finite
    rw [finite] at outcome
    rw [Buffer.result_of_ok _ _ outcome]
    rfl
  · intro infinite
    have unshown := (display_cases _).resolve_left (mt (display_isOk_iff _).mp infinite)
    exact Buffer.result_of_error _ .notFinite (outcome.trans unshown)
  · intro literal
    exact (Number.isNearest_iff _ _ _ (by decide)).mpr rfl

-- The keys of 007÷.5-2. and the equals key, on a display that shows nine.
theorem typed_expression_exact_leading_zeros :
    Buffer.pressAll ['9'] (.clear ::
        ([.digit 0, .digit 0, .digit 7, .operator .divide, .point, .digit 5, .operator .minus,
          .digit 2, .point] ++ [.equals])) = ['1', '2'] := by
  have shown : display (typedValue ['0', '0', '7']
      [(.divide, ['.', '5']), (.subtract, ['2', '.'])]) = .ok ['1', '2'] := by decide +kernel
  have firstLiteral : IsMantissa ['0', '0', '7'] := ⟨by simp, by decide, by simp⟩
  have literals : ∀ pair ∈ [(Operation.divide, ['.', '5']), (.subtract, ['2', '.'])],
      IsMantissa pair.2 := by
    intro pair member
    simp only [List.mem_cons, List.not_mem_nil, or_false] at member
    rcases member with rfl | rfl
    · exact ⟨by simp, by decide, by simp⟩
    · exact ⟨by simp, by decide, by simp⟩
  have notBare : ∀ count, 0 < count →
      ['0', '0', '7'] ≠ List.replicate count '0' ++ ['.'] := by
    intro count _ same
    have last := congrArg List.getLast? same
    simp at last
  obtain ⟨x, finite⟩ := (display_isOk_iff _).mp ⟨_, shown⟩
  have typed := (typed_expression_exact ['9'] ['0', '0', '7'] _
    [.digit 0, .digit 0, .digit 7, .operator .divide, .point, .digit 5, .operator .minus,
      .digit 2, .point] firstLiteral notBare literals rfl).1 x finite
  rw [finite] at shown
  exact Except.ok.inj (typed.symm.trans shown)

end DeskCalculator
