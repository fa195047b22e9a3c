import DeskCalculator.Evaluation
import DeskCalculator.Proofs.LiteralGrammar
import DeskCalculator.Proofs.Precedence

/-!
The infix expressions. One is a number or more with a single operator between two of them
and blanks anywhere but inside a number. The scanner and the arrangement together accept
these texts and no others, and what they refuse they refuse for its shape.
-/

namespace DeskCalculator

def Padded (IsCore : Text → Prop) (text : Text) : Prop :=
  ∃ before core after, text = before ++ (core ++ after) ∧
    (∀ c ∈ before, isBlank c = true) ∧ IsCore core ∧ ∀ c ∈ after, isBlank c = true

inductive IsInfix : Text → Prop where
  | operand {text : Text} (number : Padded IsLiteral text) : IsInfix text
  | operation {text rest : Text} (op : Operation) (number : Padded IsLiteral text)
      (others : IsInfix rest) : IsInfix (text ++ op.symbol :: rest)

/-- What may follow a number: blanks, and then nothing or an operator and an expression. -/
def IsInfixTail (text : Text) : Prop :=
  ∃ blanks rest, text = blanks ++ rest ∧ (∀ c ∈ blanks, isBlank c = true) ∧
    (rest = [] ∨ ∃ (op : Operation) (others : Text),
      rest = op.symbol :: others ∧ IsInfix others)

theorem Padded.mono {IsCore IsOther : Text → Prop} {text : Text} (padded : Padded IsCore text)
    (weaker : ∀ core, IsCore core → IsOther core) : Padded IsOther text := by
  obtain ⟨before, core, after, split, blankBefore, isCore, blankAfter⟩ := padded
  exact ⟨before, core, after, split, blankBefore, weaker core isCore, blankAfter⟩

theorem Padded.cons_blank {IsCore : Text → Prop} {text : Text} {c : Char}
    (blank : isBlank c = true) (padded : Padded IsCore text) : Padded IsCore (c :: text) := by
  obtain ⟨before, core, after, rfl, blankBefore, isCore, blankAfter⟩ := padded
  refine ⟨c :: before, core, after, rfl, ?_, isCore, blankAfter⟩
  intro x member
  rcases List.mem_cons.mp member with rfl | later
  · exact blank
  · exact blankBefore x later

theorem IsInfix.cons_blank {text : Text} {c : Char} (blank : isBlank c = true)
    (isInfix : IsInfix text) : IsInfix (c :: text) := by
  cases isInfix with
  | operand number => exact .operand (number.cons_blank blank)
  | operation op number others => exact .operation op (number.cons_blank blank) others

theorem IsInfixTail.cons_blank {text : Text} {c : Char} (blank : isBlank c = true)
    (isTail : IsInfixTail text) : IsInfixTail (c :: text) := by
  obtain ⟨blanks, rest, rfl, blankHead, ending⟩ := isTail
  refine ⟨c :: blanks, rest, rfl, ?_, ending⟩
  intro x member
  rcases List.mem_cons.mp member with rfl | later
  · exact blank
  · exact blankHead x later

theorem IsInfixTail.after_literal {literal text : Text} (isLiteral : IsLiteral literal)
    (isTail : IsInfixTail text) : IsInfix (literal ++ text) := by
  obtain ⟨blanks, rest, rfl, blankHead, ending⟩ := isTail
  have padded : Padded IsLiteral (literal ++ blanks) :=
    ⟨[], literal, blanks, rfl, by simp, isLiteral, blankHead⟩
  rcases ending with rfl | ⟨op, others, rfl, isInfix⟩
  · simpa using IsInfix.operand padded
  · simpa using IsInfix.operation op padded isInfix

theorem symbol_not_blank (op : Operation) : isBlank op.symbol = false := by
  cases op <;> decide

theorem endsLiteral_of_head (after : Text)
    (head : ∀ c ∈ after.head?, isBlank c = true ∨ ∃ op : Operation, c = op.symbol) :
    EndsLiteral after := by
  intro c found
  rcases head c found with blank | ⟨op, rfl⟩
  · cases inside : isMantissaChar c || isExponentMark c with
    | false => exact inside
    | true =>
        have literalChar : isLiteralChar c = true := by
          simp only [Bool.or_eq_true] at inside
          rcases inside with mantissa | mark <;> simp [isLiteralChar, *]
        rw [isBlank_eq_false_of_isLiteralChar c literalChar] at blank
        cases blank
  · cases op <;> decide

theorem tokensFrom_blank (operandDue : Bool) (c : Char) (rest : Text)
    (blank : isBlank c = true) :
    tokensFrom operandDue (c :: rest) = tokensFrom operandDue rest := by
  rw [tokensFrom, if_pos blank]

theorem tokensFrom_blanks (operandDue : Bool) (blanks rest : Text)
    (blank : ∀ c ∈ blanks, isBlank c = true) :
    tokensFrom operandDue (blanks ++ rest) = tokensFrom operandDue rest := by
  induction blanks with
  | nil => rfl
  | cons c blanks ih =>
      rw [List.cons_append, tokensFrom_blank _ c _ (blank c List.mem_cons_self)]
      exact ih fun x member => blank x (List.mem_cons_of_mem c member)

theorem tokensFrom_literal (literal after : Text) (d : Decimal)
    (read : Decimal.ofText? literal = some d) (ends : EndsLiteral after) :
    tokensFrom true (literal ++ after) =
      (.number d.nearest :: ·) <$> tokensFrom false after := by
  have isLiteral : IsLiteral literal := (ofText?_isSome_iff literal).mp (by simp [read])
  obtain ⟨first, rest, rfl, starts, split⟩ := splitNumber_literal literal after isLiteral ends
  have solid : isBlank first = false :=
    isBlank_eq_false_of_isLiteralChar first
      (isLiteralChar_of_mem _ isLiteral first List.mem_cons_self)
  rw [List.cons_append, tokensFrom, if_neg (by simp [solid]), if_pos starts, split]
  simp [read]

theorem tokensFrom_symbol (op : Operation) (rest : Text) :
    tokensFrom false (op.symbol :: rest) = (.operator op :: ·) <$> tokensFrom true rest := by
  have unsigned : startsNumber false op.symbol rest = false := by
    cases op <;> rfl
  rw [tokensFrom, if_neg (by simp [symbol_not_blank]), if_neg (by simp [unsigned]),
    Operation.ofSymbol?_symbol]

theorem map_eq_ok {β γ : Type} (f : β → γ) (outcome : Except EvalError β) (result : γ)
    (mapped : f <$> outcome = .ok result) : ∃ x, outcome = .ok x ∧ result = f x := by
  cases outcome with
  | error cause => cases mapped
  | ok x =>
      cases mapped
      exact ⟨x, rfl, rfl⟩

theorem map_eq_error {β γ : Type} (f : β → γ) (outcome : Except EvalError β)
    (cause : EvalError) (mapped : f <$> outcome = .error cause) : outcome = .error cause := by
  cases outcome with
  | error other =>
      cases mapped
      rfl
  | ok x => cases mapped

/-- What the scanner reads as operands and operators in turn is an expression, or the tail
of one when an operand stands before it. -/
theorem tokensFrom_sound (operandDue : Bool) (text : Text) (found : List (Token Double))
    (read : tokensFrom operandDue text = .ok found)
    (turns : Postfix.alternates operandDue found = true) :
    if operandDue then IsInfix text else IsInfixTail text := by
  -- The cases are those of the scanner. A token read out of turn contradicts `turns`, so in
  -- each case only one of the two readings is left to build.
  fun_induction tokensFrom operandDue text generalizing found with
  | case1 operandDue =>
      cases read
      cases operandDue with
      | true => simp [Postfix.alternates] at turns
      | false => exact ⟨[], [], rfl, by simp, Or.inl rfl⟩
  | case2 operandDue c rest blank ih =>
      have inner := ih found read turns
      cases operandDue with
      | true => exact IsInfix.cons_blank blank inner
      | false => exact IsInfixTail.cons_blank blank inner
  | case3 => cases read
  | case4 operandDue c rest solid starts d literalRead ih =>
      rcases map_eq_ok _ _ found read with ⟨others, later, rfl⟩
      cases operandDue with
      | false => simp [Postfix.alternates] at turns
      | true =>
          have isTail := ih others later (by simpa [Postfix.alternates] using turns)
          have isLiteral : IsLiteral (splitNumber c rest).1 :=
            (ofText?_isSome_iff _).mp (by simp [literalRead])
          simpa [splitNumber_append] using isTail.after_literal isLiteral
  | case5 => cases read
  | case6 operandDue c rest solid starts op symbol ih =>
      rcases map_eq_ok _ _ found read with ⟨others, later, rfl⟩
      cases operandDue with
      | true => simp [Postfix.alternates] at turns
      | false =>
          have isInfix := ih others later (by simpa [Postfix.alternates] using turns)
          have same := Operation.ofSymbol?_eq_some c op symbol
          exact ⟨[], c :: rest, rfl, by simp, Or.inr ⟨op, rest, by rw [same], isInfix⟩⟩

theorem tokensFrom_padded (text after : Text) (number : Padded IsLiteral text)
    (head : ∀ c ∈ after.head?, ∃ op : Operation, c = op.symbol) :
    ∃ x, tokensFrom true (text ++ after) = (.number x :: ·) <$> tokensFrom false after := by
  obtain ⟨before, literal, blanks, rfl, blankBefore, isLiteral, blankAfter⟩ := number
  obtain ⟨d, read⟩ := Option.isSome_iff_exists.mp ((ofText?_isSome_iff literal).mpr isLiteral)
  have ends : EndsLiteral (blanks ++ after) := by
    apply endsLiteral_of_head
    intro c found
    cases blanks with
    | nil => exact Or.inr (head c found)
    | cons blank blanks =>
        cases found
        exact Or.inl (blankAfter _ List.mem_cons_self)
  refine ⟨d.nearest, ?_⟩
  rw [List.append_assoc, List.append_assoc, tokensFrom_blanks true before _ blankBefore,
    tokensFrom_literal literal _ d read ends, tokensFrom_blanks false blanks _ blankAfter]

-- The induction is on the grammar; the operator after an operand is what ends its number.
theorem tokens_of_isInfix (text : Text) (isInfix : IsInfix text) :
    ∃ found, tokens text = .ok found ∧ Postfix.alternates true found = true := by
  induction isInfix with
  | @operand text number =>
      obtain ⟨x, read⟩ := tokensFrom_padded text [] number (by simp)
      refine ⟨[.number x], ?_, rfl⟩
      rw [List.append_nil] at read
      rw [tokens, read, tokensFrom]
      rfl
  | @operation text rest op number _ ih =>
      obtain ⟨others, othersRead, turns⟩ := ih
      obtain ⟨x, read⟩ := tokensFrom_padded text (op.symbol :: rest) number
        (by rintro c ⟨⟩; exact ⟨op, rfl⟩)
      refine ⟨.number x :: .operator op :: others, ?_, turns⟩
      rw [tokens] at othersRead ⊢
      rw [read, tokensFrom_symbol, othersRead]
      rfl

theorem tokens_alternate_iff (text : Text) :
    (∃ found, tokens text = .ok found ∧ Postfix.alternates true found = true) ↔
      IsInfix text := by
  constructor
  · rintro ⟨found, read, turns⟩
    exact tokensFrom_sound true text found read turns
  · exact tokens_of_isInfix text

/-- The causes that lie in the shape of an expression. -/
def EvalError.ofShape : EvalError → Bool
  | .unexpectedChar _ | .malformedNumber _ | .malformedExpression => true
  | .empty | .notFinite => false

theorem tokensFrom_error (operandDue : Bool) (text : Text) (cause : EvalError)
    (stopped : tokensFrom operandDue text = .error cause) : cause.ofShape = true := by
  fun_induction tokensFrom operandDue text with
  | case1 => cases stopped
  | case2 operandDue c rest blank ih => exact ih stopped
  | case3 => cases stopped; rfl
  | case4 operandDue c rest solid starts d literalRead ih =>
      exact ih (map_eq_error _ _ cause stopped)
  | case5 => cases stopped; rfl
  | case6 operandDue c rest solid starts op symbol ih =>
      exact ih (map_eq_error _ _ cause stopped)

/-- An expression has a value, and any other text fails for its shape. -/
theorem expressionValue_cases (text : Text) :
    (IsInfix text ∧ ∃ v, expressionValue text = .ok v) ∨
    (¬ IsInfix text ∧ ∃ cause, expressionValue text = .error cause ∧
      cause.ofShape = true) := by
  cases read : tokens text with
  | error cause =>
      refine Or.inr ⟨?_, cause, by simp [expressionValue, read, bind, Except.bind],
        tokensFrom_error true text cause read⟩
      intro isInfix
      obtain ⟨found, same, _⟩ := tokens_of_isInfix text isInfix
      rw [read] at same
      cases same
  | ok found =>
      cases turns : Postfix.alternates true found with
      | true =>
          obtain ⟨first, rest, rfl⟩ := (Postfix.alternates_iff found).mp turns
          refine Or.inl ⟨(tokens_alternate_iff text).mp ⟨_, read, turns⟩,
            Postfix.infixValue Operation.apply first rest, ?_⟩
          simp only [expressionValue, read, bind, Except.bind, Postfix.ofInfix_infixTokens,
            Postfix.reduce_infixTree]
      | false =>
          refine Or.inr ⟨?_, .malformedExpression, ?_, rfl⟩
          · intro isInfix
            obtain ⟨others, same, othersTurn⟩ := tokens_of_isInfix text isInfix
            rw [read] at same
            cases same
            rw [turns] at othersTurn
            cases othersTurn
          · simp only [expressionValue, read, bind, Except.bind,
              Postfix.ofInfix_of_not_alternates found turns]

/-- An expression fails where the scanner stops, or for the order of its tokens. -/
theorem expressionValue_error (text : Text) (cause : EvalError)
    (failed : expressionValue text = .error cause) :
    tokens text = .error cause ∨ cause = .malformedExpression := by
  cases read : tokens text with
  | error other =>
      rw [expressionValue, read] at failed
      cases failed
      exact Or.inl rfl
  | ok found =>
      right
      cases turns : Postfix.alternates true found with
      | true =>
          obtain ⟨first, rest, rfl⟩ := (Postfix.alternates_iff found).mp turns
          simp [expressionValue, read, bind, Except.bind, Postfix.ofInfix_infixTokens,
            Postfix.reduce_infixTree] at failed
      | false =>
          simp only [expressionValue, read, bind, Except.bind,
            Postfix.ofInfix_of_not_alternates found turns] at failed
          cases failed
          rfl

end DeskCalculator
