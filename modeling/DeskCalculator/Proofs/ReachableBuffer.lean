import DeskCalculator.Proofs.WellFormed

/-!
The buffers that keys reach. The first buffer is well formed, every key keeps a buffer well
formed, and so does any run of keys. A result is such a buffer because it can be typed: its
digits, its point and its exponent are characters added one after the other.
-/

namespace DeskCalculator.Buffer

theorem isOperator_eq_false_of_digit (c : Char) (digit : c.isDigit = true) :
    isOperator c = false :=
  isOperator_eq_false_of_mantissa c (isMantissaChar_of_isDigit digit)

theorem digit_ne (c other : Char) (digit : c.isDigit = true) (outside : other.isDigit = false) :
    c ≠ other := by
  rintro rfl
  rw [digit] at outside
  cases outside

theorem wellFormed_digit (buffer : Buffer) (wellFormed : WellFormed buffer) (c : Char)
    (digit : c.isDigit = true) : WellFormed (buffer ++ [c]) := by
  apply wellFormed_snoc buffer c wellFormed (Or.inl digit)
  · intro operator
    rw [isOperator_eq_false_of_digit c digit] at operator
    cases operator
  · intro point
    exact absurd point (digit_ne c '.' digit (by decide))
  · intro mark
    exact absurd mark (digit_ne c 'e' digit (by decide))

theorem wellFormed_digits (digits : Text) (buffer : Buffer) (wellFormed : WellFormed buffer)
    (inside : ∀ c ∈ digits, c.isDigit = true) : WellFormed (buffer ++ digits) := by
  induction digits generalizing buffer with
  | nil => simpa using wellFormed
  | cons c rest ih =>
      have grown := wellFormed_digit buffer wellFormed c (inside c List.mem_cons_self)
      have later := ih (buffer ++ [c]) grown
        fun x member => inside x (List.mem_cons_of_mem c member)
      simpa using later

theorem wellFormed_point (buffer : Buffer) (wellFormed : WellFormed buffer)
    (takes : takesPoint buffer = true) : WellFormed (buffer ++ ['.']) := by
  apply wellFormed_snoc buffer '.' wellFormed (Or.inr (by decide))
  · intro operator
    exact absurd operator (by decide)
  · intro _
    exact takes
  · intro mark
    exact absurd mark (by decide)

theorem wellFormed_operator (buffer : Buffer) (wellFormed : WellFormed buffer) (op : Operator)
    (behindNumber : endsInOperator buffer = false) : WellFormed (buffer ++ [op.glyph]) := by
  apply wellFormed_snoc buffer op.glyph wellFormed
  · cases op <;> exact Or.inr (by decide)
  · intro _
    exact behindNumber
  · intro point
    cases op <;> exact absurd point (by decide)
  · intro mark
    cases op <;> exact absurd mark (by decide)

theorem wellFormed_single (c : Char) (inside : isMantissaChar c = true) : WellFormed [c] := by
  have notOperator := isOperator_eq_false_of_mantissa c inside
  have alone : pieces [c] = [[c]] := by
    rw [pieces, piecesAfter_mantissa [c] none (by simpa using inside)]
  have noMark : c ≠ 'e' := by
    rintro rfl
    exact absurd inside (by decide)
  constructor
  · simp
  · intro x member
    rw [List.mem_singleton.mp member]
    rcases isMantissaChar_iff.mp inside with digit | rfl
    · exact Or.inl digit
    · exact Or.inr (by decide)
  · exact List.isChain_singleton c
  · rintro x ⟨⟩ operator
    rw [notOperator] at operator
    cases operator
  · intro piece member
    rw [alone] at member
    rw [List.mem_singleton.mp member]
    by_cases isPoint : c = '.'
    · subst isPoint
      exact wellPointed_point [] (by simp) (by simp)
    · exact wellPointed_snoc [] c wellPointed_nil isPoint
  · rw [List.count_cons_of_ne noMark]
    decide
  · intro before after same
    rcases snoc_split [] before after c 'e' same with ⟨_, mark, _⟩ | ⟨inner, _, split⟩
    · exact absurd mark noMark
    · simp at split

theorem initial_wellFormed : WellFormed initial := wellFormed_single '0' (by decide)

theorem takesPoint_digits (digits : Text) (inside : ∀ c ∈ digits, c.isDigit = true) :
    takesPoint digits = true := by
  have mantissa : ∀ c ∈ digits, isMantissaChar c = true :=
    fun c member => isMantissaChar_of_isDigit (inside c member)
  apply (takesPoint_mantissa digits mantissa).mpr
  intro member
  exact absurd (inside '.' member) (by decide)

theorem wellFormed_whole (digits : Text) (present : digits ≠ [])
    (inside : ∀ c ∈ digits, c.isDigit = true) : WellFormed digits := by
  cases digits with
  | nil => exact absurd rfl present
  | cons c rest =>
      have first := isMantissaChar_of_isDigit (inside c List.mem_cons_self)
      exact wellFormed_digits rest [c] (wellFormed_single c first)
        fun x member => inside x (List.mem_cons_of_mem c member)

theorem wellFormed_pointed (whole fraction : Text) (present : whole ≠ [])
    (wholeDigits : ∀ c ∈ whole, c.isDigit = true)
    (fractionDigits : ∀ c ∈ fraction, c.isDigit = true) :
    WellFormed (whole ++ pointed fraction) := by
  have started := wellFormed_whole whole present wholeDigits
  by_cases empty : fraction.isEmpty = true
  · rw [pointed, if_pos empty, List.append_nil]
    exact started
  · rw [pointed, if_neg empty]
    have grown := wellFormed_digits fraction (whole ++ ['.'])
      (wellFormed_point whole started (takesPoint_digits whole wholeDigits)) fractionDigits
    simpa using grown

theorem pointed_cases (fraction : Text) :
    pointed fraction = [] ∨ pointed fraction = '.' :: fraction := by
  by_cases empty : fraction.isEmpty = true
  · exact Or.inl (by rw [pointed, if_pos empty])
  · exact Or.inr (by rw [pointed, if_neg empty])

/-- A normalized number takes an exponent mark, and digits or a sign behind it. -/
theorem wellFormed_scientific (mantissa : Text) (normalized : IsNormalized mantissa)
    (exponent : Int) : WellFormed (mantissa ++ 'e' :: textOfInt exponent) := by
  have base : IsExponentBase mantissa := ⟨mantissa, Or.inl rfl, normalized⟩
  rcases normalized with ⟨lead, fraction, rfl, leadDigit, _, fractionDigits⟩
  have written : WellFormed (lead :: pointed fraction) :=
    wellFormed_pointed [lead] fraction (by simp) (by simpa using leadDigit) fractionDigits
  have noMark : 'e' ∉ lead :: pointed fraction := by
    intro member
    rcases List.mem_cons.mp member with rfl | behind
    · exact absurd leadDigit (by decide)
    · rcases pointed_cases fraction with whole | fractional
      · rw [whole] at behind
        simp at behind
      · rw [fractional] at behind
        rcases List.mem_cons.mp behind with point | digit
        · exact absurd point (by decide)
        · exact absurd (fractionDigits 'e' digit) (by decide)
  have marked : WellFormed ((lead :: pointed fraction) ++ ['e']) := by
    apply wellFormed_snoc _ 'e' written (Or.inr (by decide))
    · intro operator
      exact absurd operator (by decide)
    · intro point
      exact absurd point (by decide)
    · intro _
      exact ⟨noMark, base⟩
  -- The sign of the exponent is added like an operator; the mark before it is none.
  have exponentDigits := digitsOf_isDigit exponent.natAbs
  by_cases negative : exponent < 0
  · have behindMark : endsInOperator ((lead :: pointed fraction) ++ ['e']) = false := by
      rw [endsInOperator_concat]
      rfl
    have signed := wellFormed_operator _ marked .minus behindMark
    have whole := wellFormed_digits (digitsOf exponent.natAbs) _ signed exponentDigits
    rw [textOfInt, if_pos negative]
    simpa [Operator.glyph] using whole
  · have whole := wellFormed_digits (digitsOf exponent.natAbs) _ marked exponentDigits
    rw [textOfInt, if_neg negative]
    simpa using whole

theorem shown_wellFormed (d : Decimal) : WellFormed d.text := by
  rcases d.text_shape with ⟨unsigned, sign, shape⟩
  have parts : WellFormed unsigned ∧ unsigned.head? ≠ some '-' := by
    rcases shape with ⟨whole, fraction, rfl, present, wholeDigits, fractionDigits⟩ |
      ⟨mantissa, exponent, rfl, normalized⟩
    · constructor
      · exact wellFormed_pointed whole fraction present wholeDigits fractionDigits
      · rw [List.head?_append_of_ne_nil _ present]
        intro minus
        exact absurd (wholeDigits '-' (List.mem_of_mem_head? minus)) (by decide)
    · constructor
      · exact wellFormed_scientific mantissa normalized exponent
      · have present : mantissa ≠ [] := by
          rcases normalized with ⟨lead, fraction, rfl, _⟩
          simp
        rw [List.head?_append_of_ne_nil _ present]
        exact normalized_unsigned mantissa normalized
  rcases sign with positive | negative
  · rw [positive]
    exact parts.1
  · rw [negative]
    exact wellFormed_minus unsigned parts.1 parts.2

theorem backspace_wellFormed (buffer : Buffer) (wellFormed : WellFormed buffer) :
    WellFormed (backspace buffer) := by
  by_cases empty : buffer.dropLast.isEmpty = true
  · rw [backspace, if_pos empty]
    exact initial_wellFormed
  · rw [backspace, if_neg empty]
    have split := List.dropLast_concat_getLast wellFormed.nonempty
    rw [← split] at wellFormed
    exact wellFormed_front _ _ wellFormed (by simpa using empty)

/-- A well formed buffer is a sign alone, ends in no operator, or ends in an operator behind
something that does not. -/
theorem WellFormed.ending_cases {buffer : Buffer} (wellFormed : WellFormed buffer) :
    buffer = ['-'] ∨ endsInOperator buffer = false ∨
      ∃ front last, buffer = front ++ [last] ∧ isOperator last = true ∧ front ≠ [] ∧
        endsInOperator front = false := by
  rcases List.eq_nil_or_concat buffer with rfl | ⟨front, last, rfl⟩
  · exact absurd rfl wellFormed.nonempty
  · rw [List.concat_eq_append] at *
    cases operator : isOperator last with
    | false => exact Or.inr (Or.inl (by rw [endsInOperator_concat, operator]))
    | true =>
        by_cases alone : front = []
        · subst alone
          rw [wellFormed.head last rfl operator]
          exact Or.inl rfl
        · refine Or.inr (Or.inr ⟨front, last, rfl, operator, alone, ?_⟩)
          cases before : front.getLast? with
          | none => rw [endsInOperator, before, Option.any_none]
          | some c =>
              have pair := (List.isChain_append.mp wellFormed.apart).2.2 c before last rfl
              rw [endsInOperator, before, Option.any_some]
              exact Bool.eq_false_iff.mpr fun both => pair ⟨both, operator⟩

/-- A sign alone is kept, and the operator that is replaced stands behind something. -/
theorem pressOperator_wellFormed (buffer : Buffer) (wellFormed : WellFormed buffer)
    (op : Operator) : WellFormed (pressOperator buffer op) := by
  rcases wellFormed.ending_cases with rfl | free | ⟨front, last, rfl, operator, present, free⟩
  · rw [pressOperator_sign]
    exact wellFormed
  · rw [pressOperator_added buffer op free]
    exact wellFormed_operator buffer wellFormed op free
  · rw [pressOperator_replaced front last op present operator]
    exact wellFormed_operator front (wellFormed_front front last wellFormed present) op free

theorem toggleSign_wellFormed (buffer : Buffer) (wellFormed : WellFormed buffer) :
    WellFormed (toggleSign buffer) := by
  cases buffer with
  | nil => exact absurd rfl wellFormed.nonempty
  | cons c rest =>
      by_cases minus : c = '-'
      · subst minus
        rw [toggleSign, if_pos rfl]
        by_cases alone : rest.isEmpty = true
        · rw [if_pos alone]
          exact initial_wellFormed
        · rw [if_neg alone]
          exact wellFormed_tail rest wellFormed (by simpa using alone)
      · rw [toggleSign, if_neg minus]
        exact wellFormed_minus _ wellFormed (by simpa using minus)

theorem result_wellFormed (buffer : Buffer) (wellFormed : WellFormed buffer) :
    WellFormed (result buffer) := by
  cases evaluated : evaluate buffer with
  | error problem =>
      rw [result_of_error buffer problem evaluated]
      exact wellFormed
  | ok shown =>
      rcases evaluate_shown buffer shown evaluated with ⟨d, rfl⟩
      rw [result_of_ok buffer _ evaluated]
      exact shown_wellFormed d

/-- Every key keeps a buffer well formed. -/
theorem press_wellFormed (buffer : Buffer) (wellFormed : WellFormed buffer) (key : Key) :
    WellFormed (press buffer key) := by
  cases key with
  | digit n =>
      by_cases start : buffer = initial
      · rw [press, typingBase, if_pos start]
        exact wellFormed_single _ (isMantissaChar_of_isDigit (digitGlyph_isDigit n))
      · rw [press, typingBase, if_neg start]
        exact wellFormed_digit buffer wellFormed _ (digitGlyph_isDigit n)
  | point =>
      by_cases start : buffer = initial
      · rw [press, typingBase, if_pos start]
        exact wellFormed_single '.' (by decide)
      · rw [press, typingBase, if_neg start]
        by_cases takes : takesPoint buffer = true
        · simp only [if_pos takes]
          exact wellFormed_point buffer wellFormed takes
        · simp only [if_neg takes]
          exact wellFormed
  | operator op => exact pressOperator_wellFormed buffer wellFormed op
  | clear => exact initial_wellFormed
  | backspace => exact backspace_wellFormed buffer wellFormed
  | sign => exact toggleSign_wellFormed buffer wellFormed
  | equals => exact result_wellFormed buffer wellFormed

theorem pressAll_wellFormed (keys : List Key) (buffer : Buffer)
    (wellFormed : WellFormed buffer) : WellFormed (pressAll buffer keys) := by
  induction keys generalizing buffer with
  | nil => exact wellFormed
  | cons key rest ih => exact ih (press buffer key) (press_wellFormed buffer wellFormed key)

/-- Whatever keys are pressed from the start, the display holds a well formed buffer. -/
theorem reachable_wellFormed (keys : List Key) : WellFormed (pressAll initial keys) :=
  pressAll_wellFormed keys initial initial_wellFormed

end DeskCalculator.Buffer
