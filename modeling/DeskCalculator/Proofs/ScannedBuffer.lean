import DeskCalculator.Proofs.AcceptedText
import DeskCalculator.Proofs.BufferParts

/-!
How the scanner reads a buffer by its parts. The first number and the runs are lexemes, each with
the text between its neighbours, and so are the operators; the scanner stops at a percent sign, at
a run that is a point alone, and at an exponent mark without digits behind it.
-/

namespace DeskCalculator

/-- The operation of an infix expression that an operator stands for. -/
def Operator.operation? : Operator → Option Operation
  | plus => some .add
  | minus => some .subtract
  | times => some .multiply
  | divide => some .divide
  | modulo => none

theorem Operator.arithmeticSymbol_glyph (op : Operator) (operation : Operation)
    (found : op.operation? = some operation) : arithmeticSymbol op.glyph = operation.symbol := by
  cases op <;> cases found <;> decide

/-- The tokens of a text that starts with the given lexeme of a number. -/
def readNumber (lexeme : Text) (later : Except EvalError (List (Token Double))) :
    Except EvalError (List (Token Double)) :=
  match Decimal.ofText? lexeme with
  | none => .error (.malformedNumber lexeme)
  | some d => (.number d.nearest :: ·) <$> later

/-- The tokens of operators with runs behind them. -/
def readTail : List (Operator × Text) → Except EvalError (List (Token Double))
  | [] => .ok []
  | (op, run) :: rest =>
    match op.operation? with
    | none => .error (.unexpectedChar op.glyph)
    | some operation =>
      (.operator operation :: ·) <$> if run = [] then .ok [] else readNumber run (readTail rest)

theorem EndsLiteral.bare {after : Text} (ends : EndsLiteral after) :
    splitExponent after = ([], after) :=
  splitExponent_exponentPart [] after (Or.inl rfl) ends

theorem tokensFrom_lexeme (first : Char) (rest after : Text) (solid : isBlank first = false)
    (starts : startsNumber true first (rest ++ after) = true)
    (cut : splitNumber first (rest ++ after) = (first :: rest, after)) :
    tokensFrom true (first :: (rest ++ after)) =
      readNumber (first :: rest) (tokensFrom false after) := by
  rw [tokensFrom, if_neg (by simp [solid]), if_pos starts, cut]
  rfl

theorem tokensFrom_unexpected (c : Char) (rest : Text) (solid : isBlank c = false)
    (outside : isMantissaChar c = false) (unknown : Operation.ofSymbol? c = none) :
    tokensFrom false (c :: rest) = .error (.unexpectedChar c) := by
  rw [tokensFrom, if_neg (by simp [solid]), if_neg (by simp [startsNumber, outside]), unknown]

/-- Where an operand is due a run is a lexeme, together with a minus in front of it. -/
theorem tokensFrom_run (sign run after : Text) (signed : sign = [] ∨ sign = ['-'])
    (inside : ∀ c ∈ run, isMantissaChar c = true) (present : run ≠ [])
    (stops : StopsSpan isMantissaChar after) (bare : splitExponent after = ([], after)) :
    tokensFrom true (sign ++ (run ++ after)) =
      readNumber (sign ++ run) (tokensFrom false after) := by
  obtain ⟨first, rest, same, solid, starts, cut⟩ :=
    splitNumber_cut true sign run [] after (signed.imp_right Or.inr) (fun _ => rfl) present inside
      stops bare
  rw [List.append_nil] at same
  rw [← List.append_assoc, same]
  exact tokensFrom_lexeme first rest after solid starts cut

theorem readNumber_literal (literal : Text) (isLiteral : IsLiteral literal) :
    ∃ x : Double, ∀ later, readNumber literal later = (.number x :: ·) <$> later := by
  obtain ⟨d, read⟩ := Option.isSome_iff_exists.mp ((ofText?_isSome_iff literal).mpr isLiteral)
  exact ⟨d.nearest, fun later => by rw [readNumber, read]⟩

namespace Buffer

theorem IsRun.cases {run : Text} (isRun : IsRun run) (present : run ≠ []) :
    run = ['.'] ∨ IsMantissa run := by
  by_cases digit : ∃ c ∈ run, c.isDigit = true
  · exact Or.inr ⟨fun c member => isMantissaChar_iff.mp (isRun.inside c member), isRun.single,
      digit⟩
  · have points : ∀ c ∈ run, c = '.' := by
      intro c member
      apply (isMantissaChar_iff.mp (isRun.inside c member)).resolve_left
      exact fun isDigit => digit ⟨c, member, isDigit⟩
    have single := isRun.single
    rw [List.eq_replicate_of_mem points, List.count_replicate_self] at single
    have length : run.length = 1 := by
      have positive := List.length_pos_iff.mpr present
      omega
    left
    rw [List.eq_replicate_of_mem points, length]
    rfl

theorem isLiteral_signed (sign mantissa exponent : Text) (signed : sign = [] ∨ sign = ['-'])
    (isMantissa : IsMantissa mantissa) (exponentPart : IsExponentPart exponent) :
    IsLiteral (sign ++ (mantissa ++ exponent)) :=
  ⟨sign, mantissa, exponent, rfl, signed.imp_right Or.inr, isMantissa, exponentPart⟩

theorem readNumber_run (sign run : Text) (signed : sign = [] ∨ sign = ['-'])
    (isRun : IsRun run) (present : run ≠ []) :
    (run = ['.'] ∧
      ∀ later, readNumber (sign ++ run) later = .error (.malformedNumber (sign ++ ['.']))) ∨
    (run ≠ ['.'] ∧
      ∃ x, ∀ later, readNumber (sign ++ run) later = (.number x :: ·) <$> later) := by
  rcases isRun.cases present with rfl | isMantissa
  · refine Or.inl ⟨rfl, fun later => ?_⟩
    have unread : Decimal.ofText? (sign ++ ['.']) = none := by
      rcases signed with rfl | rfl <;> decide
    rw [readNumber, unread]
  · have isLiteral := isLiteral_signed sign run [] signed isMantissa (Or.inl rfl)
    rw [List.append_nil] at isLiteral
    refine Or.inr ⟨?_, readNumber_literal _ isLiteral⟩
    rintro rfl
    obtain ⟨_, _, digit, member, isDigit⟩ := isMantissa
    rw [List.mem_singleton.mp member] at isDigit
    exact absurd isDigit (by decide)

theorem endsLiteral_tail (tail : List (Operator × Text)) :
    EndsLiteral (normalize (tailText tail)) := by
  cases tail with
  | nil => exact stopsSpan_nil _
  | cons pair rest =>
      obtain ⟨op, run⟩ := pair
      rw [tailText_cons, normalize, List.map_cons, EndsLiteral, stopsSpan_cons]
      cases op <;> decide

theorem normalize_run (run : Text) (inside : ∀ c ∈ run, isMantissaChar c = true) :
    normalize run = run :=
  normalize_kept run fun c member => isLiteralChar_of_mantissa (inside c member)

-- The induction is on the pairs; each operator makes an operand due, and the run behind it
-- ends where the next pair starts.
theorem tokensFrom_tail (tail : List (Operator × Text)) (isTail : IsTail tail) :
    tokensFrom false (normalize (tailText tail)) = readTail tail := by
  induction tail with
  | nil => simp [tailText, normalize, tokensFrom, readTail]
  | cons pair rest ih =>
      obtain ⟨op, run⟩ := pair
      have inside := (isTail.runs (op, run) List.mem_cons_self).inside
      have later := ih (isTail_rest (op, run) rest isTail)
      have split : normalize (tailText ((op, run) :: rest)) =
          arithmeticSymbol op.glyph :: (run ++ normalize (tailText rest)) := by
        have kept := normalize_run run inside
        rw [tailText_cons, ← List.singleton_append, normalize_append, normalize_append, kept]
        rfl
      rw [split]
      cases found : op.operation? with
      | none =>
          cases op <;> cases found
          exact tokensFrom_unexpected '%' _ (by decide) (by decide) (by decide)
      | some operation =>
          rw [Operator.arithmeticSymbol_glyph op operation found, tokensFrom_symbol]
          simp only [readTail, found]
          by_cases present : run = []
          · subst present
            rw [isTail_last op rest isTail]
            simp [tailText, normalize, tokensFrom]
          · have ends := endsLiteral_tail rest
            have read := tokensFrom_run [] run _ (Or.inl rfl) inside present ends.mantissa
              ends.bare
            rw [List.nil_append, List.nil_append] at read
            rw [if_neg present, read, later]

/-- The percent sign and a point alone are all that the scanner refuses behind the first
number. -/
theorem readTail_error (tail : List (Operator × Text)) (isTail : IsTail tail)
    (cause : EvalError) (stopped : readTail tail = .error cause) :
    cause = .unexpectedChar '%' ∨ cause = .malformedNumber ['.'] := by
  induction tail with
  | nil => cases stopped
  | cons pair rest ih =>
      obtain ⟨op, run⟩ := pair
      rw [readTail] at stopped
      cases found : op.operation? with
      | none =>
          rw [found] at stopped
          cases op <;> cases found
          cases stopped
          exact Or.inl rfl
      | some operation =>
          rw [found] at stopped
          have inner := map_eq_error _ _ cause stopped
          by_cases empty : run = []
          · rw [if_pos empty] at inner
            cases inner
          · rw [if_neg empty, ← List.nil_append run] at inner
            rcases readNumber_run [] run (Or.inl rfl) (isTail.runs (op, run) List.mem_cons_self)
              empty with ⟨_, read⟩ | ⟨_, x, read⟩
            · rw [read] at inner
              cases inner
              exact Or.inr rfl
            · rw [read] at inner
              exact ih (isTail_rest (op, run) rest isTail) (map_eq_error _ _ cause inner)

/-- A tail of four operations is read in turns when a number stands behind each of them. -/
theorem readTail_alternates (tail : List (Operator × Text)) (isTail : IsTail tail)
    (plain : ∀ pair ∈ tail, pair.1 ≠ .modulo) :
    (∃ found, readTail tail = .ok found ∧ Postfix.alternates false found = true) ↔
      ∀ pair ∈ tail, pair.2 ≠ [] ∧ pair.2 ≠ ['.'] := by
  induction tail with
  | nil => exact ⟨by simp, fun _ => ⟨[], rfl, rfl⟩⟩
  | cons pair rest ih =>
      obtain ⟨op, run⟩ := pair
      have later := ih (isTail_rest (op, run) rest isTail)
        fun other member => plain other (List.mem_cons_of_mem _ member)
      obtain ⟨operation, found⟩ : ∃ operation, op.operation? = some operation := by
        have symbol := plain (op, run) List.mem_cons_self
        cases op <;> simp_all [Operator.operation?]
      simp only [readTail, found, List.forall_mem_cons, ← later]
      by_cases empty : run = []
      · subst empty
        simp [Postfix.alternates]
      · rw [if_neg empty]
        rcases readNumber_run [] run (Or.inl rfl) (isTail.runs (op, run) List.mem_cons_self)
          empty with ⟨rfl, read⟩ | ⟨notPoint, x, read⟩
        · rw [List.nil_append] at read
          simp [read]
        · rw [List.nil_append] at read
          rw [read]
          cases readTail rest <;> simp [Postfix.alternates, empty, notPoint]

theorem normalize_parts (front : Text) (tail : List (Operator × Text))
    (inside : ∀ c ∈ front, isLiteralChar c = true) :
    normalize (front ++ tailText tail) = front ++ normalize (tailText tail) := by
  rw [normalize_append, normalize_kept front inside]

theorem signPart_literal (sign : Text) (signPart : IsSignPart sign) :
    ∀ c ∈ sign, isLiteralChar c = true := by
  intro c member
  simp [isLiteralChar, signPart_inside sign signPart c member]

theorem tokens_run (sign run : Text) (tail : List (Operator × Text))
    (signed : sign = [] ∨ sign = ['-']) (isRun : IsRun run) (present : run ≠ [])
    (isTail : IsTail tail) :
    tokens (normalize (sign ++ (run ++ tailText tail))) =
      readNumber (sign ++ run) (readTail tail) := by
  have inside : ∀ c ∈ sign ++ run, isLiteralChar c = true := by
    intro c member
    rcases List.mem_append.mp member with inSign | inRun
    · exact signPart_literal sign (signed.imp_right Or.inr) c inSign
    · exact isLiteralChar_of_mantissa (isRun.inside c inRun)
  have ends := endsLiteral_tail tail
  rw [← List.append_assoc, normalize_parts _ tail inside, List.append_assoc, tokens,
    tokensFrom_run sign run _ signed isRun.inside present ends.mantissa ends.bare,
    tokensFrom_tail tail isTail]

theorem tokens_scaled (literal : Text) (tail : List (Operator × Text))
    (isLiteral : IsLiteral literal) (isTail : IsTail tail) :
    tokens (normalize (literal ++ tailText tail)) = readNumber literal (readTail tail) := by
  obtain ⟨d, read⟩ := Option.isSome_iff_exists.mp ((ofText?_isSome_iff literal).mpr isLiteral)
  rw [normalize_parts literal tail (isLiteralChar_of_mem literal isLiteral), tokens,
    tokensFrom_literal literal _ d read (endsLiteral_tail tail), tokensFrom_tail tail isTail,
    readNumber, read]

theorem splitExponent_unscaled (sign : Text) (tail : List (Operator × Text))
    (signPart : IsSignPart sign)
    (unsigned : sign = [] → ∀ pair ∈ tail.head?, isSign pair.1.glyph = false)
    (last : sign ≠ [] → tail = []) :
    splitExponent ('e' :: (sign ++ normalize (tailText tail))) =
      ([], 'e' :: (sign ++ normalize (tailText tail))) := by
  have digitless : (splitSign (sign ++ normalize (tailText tail))).2.takeWhile Char.isDigit =
      [] := by
    by_cases none : sign = []
    · subst none
      cases tail with
      | nil => rfl
      | cons pair rest =>
          obtain ⟨op, run⟩ := pair
          have free := unsigned rfl (op, run) rfl
          cases op with
          | plus => cases free
          | minus => cases free
          | times => simp [normalize, Operator.glyph, arithmeticSymbol, splitSign, isSign]
          | divide => simp [normalize, Operator.glyph, arithmeticSymbol, splitSign, isSign]
          | modulo => simp [normalize, Operator.glyph, arithmeticSymbol, splitSign, isSign]
    · rw [last none]
      rcases signPart with rfl | rfl | rfl
      · rfl
      · rfl
      · rfl
  simp [splitExponent, digitless]

theorem tokens_unscaled (sign base exponentSign : Text) (tail : List (Operator × Text))
    (signed : sign = [] ∨ sign = ['-']) (isMantissa : IsMantissa base)
    (signPart : IsSignPart exponentSign)
    (unsigned : exponentSign = [] → ∀ pair ∈ tail.head?, isSign pair.1.glyph = false)
    (last : exponentSign ≠ [] → tail = []) :
    tokens (normalize (sign ++ (base ++ 'e' :: exponentSign ++ tailText tail))) =
      .error (.unexpectedChar 'e') := by
  have isLiteral := isLiteral_signed sign base [] signed isMantissa (Or.inl rfl)
  rw [List.append_nil] at isLiteral
  have inside : ∀ c ∈ sign ++ (base ++ 'e' :: exponentSign), isLiteralChar c = true := by
    intro c member
    rw [← List.append_assoc] at member
    rcases List.mem_append.mp member with inNumber | inMark
    · exact isLiteralChar_of_mem _ isLiteral c inNumber
    · rcases List.mem_cons.mp inMark with rfl | inSign
      · decide
      · exact signPart_literal exponentSign signPart c inSign
  have bare := splitExponent_unscaled exponentSign tail signPart unsigned last
  have present : base ≠ [] := by
    rintro rfl
    obtain ⟨_, _, _, member, _⟩ := isMantissa
    cases member
  have read := tokensFrom_run sign base _ signed (mantissa_inside base isMantissa) present
    ((stopsSpan_cons _ _ _).mpr (by decide)) bare
  obtain ⟨x, number⟩ := readNumber_literal (sign ++ base) isLiteral
  rw [← List.append_assoc, normalize_parts _ tail inside, tokens]
  simp only [List.append_assoc, List.cons_append] at read ⊢
  rw [read, tokensFrom_unexpected 'e' _ (by decide) (by decide) (by decide), number]
  rfl

end Buffer

end DeskCalculator
