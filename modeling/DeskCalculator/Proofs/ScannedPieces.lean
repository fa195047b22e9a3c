import DeskCalculator.Proofs.GroupedTree
import DeskCalculator.Proofs.KeyedOutcome
import DeskCalculator.Proofs.OppositeResult
import DeskCalculator.Proofs.PercentSign

/-!
The pieces of a buffer and the numbers of its tokens. The buffer is cut at operators by looking
one character back, and the scanner reads it looking ahead; the scanner finds a number for every
piece that is not empty and no other, and of a minus at the head it makes a sign.
-/

namespace DeskCalculator

theorem readNumber_ok (lexeme : Text) (later : Except EvalError (List (Token Double)))
    (found : List (Token Double)) (read : readNumber lexeme later = .ok found) :
    ∃ x rest, IsNearest x lexeme ∧ later = .ok rest ∧ found = .number x :: rest := by
  rw [readNumber] at read
  cases number : Decimal.ofText? lexeme with
  | none =>
      rw [number] at read
      cases read
  | some d =>
      rw [number] at read
      obtain ⟨rest, behind, split⟩ := map_eq_ok _ _ _ read
      exact ⟨d.nearest, rest, (isNearest_iff_read _ lexeme).mpr ⟨d, number, rfl⟩, behind, split⟩

theorem Decimal.ofText?_minus (unsigned : Text) (head : ∀ c ∈ unsigned.head?, isSign c = false) :
    ofText? ('-' :: unsigned) = (ofText? unsigned).map neg := by
  have bare : splitSign unsigned = ([], unsigned) := by
    cases unsigned with
    | nil => rfl
    | cons c rest => rw [splitSign, if_neg (by rw [head c rfl]; exact Bool.false_ne_true)]
  have signed : splitSign ('-' :: unsigned) = (['-'], unsigned) := rfl
  simp only [ofText?, bare, signed]
  split
  · rfl
  · rw [Option.map_map]
    rfl

theorem isNearest_minus (x : Double) (unsigned : Text)
    (head : ∀ c ∈ unsigned.head?, isSign c = false) (nearest : IsNearest x ('-' :: unsigned)) :
    ∃ y, IsNearest y unsigned ∧ x = -y := by
  obtain ⟨d, read, rfl⟩ := (isNearest_iff_read x _).mp nearest
  rw [Decimal.ofText?_minus unsigned head] at read
  obtain ⟨e, number, rfl⟩ := Option.map_eq_some_iff.mp read
  exact ⟨e.nearest, (isNearest_iff_read _ unsigned).mpr ⟨e, number, rfl⟩, e.nearest_neg⟩

namespace Buffer

theorem IsFirst.head {tail : List (Operator × Text)} {first : Text} (isFirst : IsFirst tail first) :
    ∃ c ∈ first.head?, isMantissaChar c = true := by
  have started {base : Text} (normalized : IsNormalized base) (rest : Text) :
      ∃ c ∈ (base ++ rest).head?, isMantissaChar c = true := by
    obtain ⟨lead, fraction, rfl, leadDigit, _⟩ := normalized
    exact ⟨lead, rfl, isMantissaChar_of_isDigit leadDigit⟩
  cases isFirst with
  | run _ isRun present =>
      obtain ⟨c, rest, rfl⟩ := List.exists_cons_of_ne_nil present
      exact ⟨c, rfl, isRun.inside c List.mem_cons_self⟩
  | scaled _ _ _ normalized => exact started normalized _
  | unscaled _ _ normalized => exact started normalized _

section Parts

variable {buffer : Buffer} {sign first : Text} {tail : List (Operator × Text)}

theorem HasParts.head_minus_iff (parts : HasParts buffer sign first tail) :
    buffer.head? = some '-' ↔ sign = ['-'] := by
  obtain ⟨c, head, mantissa⟩ := parts.first.head
  rw [parts.joined]
  rcases parts.sign with rfl | rfl
  · rw [List.nil_append, List.head?_append, head]
    constructor
    · rintro ⟨⟩
      cases mantissa
    · rintro ⟨⟩
  · exact iff_of_true rfl rfl

theorem HasParts.filled (parts : HasParts buffer sign first tail) :
    (pieces buffer).filter (· ≠ []) = first :: (tail.map Prod.snd).filter (· ≠ []) := by
  have present : first ≠ [] := by
    rintro rfl
    obtain ⟨_, ⟨⟩, _⟩ := parts.first.head
  rw [parts.cut]
  rcases parts.sign with rfl | rfl <;> simp [present]

theorem HasParts.readNumber_ok (parts : HasParts buffer sign first tail)
    (later : Except EvalError (List (Token Double))) (found : List (Token Double))
    (read : readNumber (sign ++ first) later = .ok found) :
    ∃ x rest, IsNearest x first ∧ later = .ok rest ∧
      found = .number (if sign = ['-'] then -x else x) :: rest := by
  obtain ⟨c, head, mantissa⟩ := parts.first.head
  have unsigned : ∀ c ∈ first.head?, isSign c = false := by
    rw [head]
    rintro _ ⟨⟩
    exact isSign_eq_false_of_mantissa mantissa
  obtain ⟨x, rest, nearest, behind, split⟩ :=
    DeskCalculator.readNumber_ok (sign ++ first) later found read
  rcases parts.sign with rfl | rfl
  · exact ⟨x, rest, nearest, behind, split⟩
  · obtain ⟨y, opposite, rfl⟩ := isNearest_minus x first unsigned nearest
    exact ⟨y, rest, opposite, behind, split⟩

end Parts

/-- The scanner reads the first number with its sign and goes on to the tail, or it stops at an
exponent mark. -/
theorem tokens_parts (buffer : Buffer) (sign first : Text) (tail : List (Operator × Text))
    (parts : HasParts buffer sign first tail) :
    tokens (normalize buffer) = readNumber (sign ++ first) (readTail tail) ∨
      tokens (normalize buffer) = .error (.unexpectedChar 'e') := by
  obtain ⟨rfl, _, signed, isFirst, isTail⟩ := parts
  cases isFirst with
  | run _ isRun present => exact Or.inl (tokens_run sign first tail signed isRun present isTail)
  | scaled base exponentSign digits normalized signPart present inside =>
      have isMantissa := isMantissa_of_normalized base normalized
      have isLiteral := isLiteral_signed sign base ('e' :: (exponentSign ++ digits)) signed
        isMantissa (Or.inr ⟨'e', exponentSign, digits, rfl, Or.inl rfl, signPart, present, inside⟩)
      rw [← List.append_assoc]
      exact Or.inl (tokens_scaled _ tail isLiteral isTail)
  | unscaled base exponentSign normalized signPart unsigned last =>
      exact Or.inr (tokens_unscaled sign base exponentSign tail signed
        (isMantissa_of_normalized base normalized) signPart unsigned last)

theorem readTail_numbers (tail : List (Operator × Text)) (isTail : IsTail tail)
    (found : List (Token Double)) (read : readTail tail = .ok found) :
    List.Forall₂ IsNearest (found.filterMap Token.number?)
      ((tail.map Prod.snd).filter (· ≠ [])) := by
  induction tail generalizing found with
  | nil =>
      cases read
      exact .nil
  | cons pair rest ih =>
      obtain ⟨op, run⟩ := pair
      rw [readTail] at read
      cases operation : op.operation? with
      | none =>
          rw [operation] at read
          cases read
      | some operation =>
          rw [operation] at read
          obtain ⟨behind, later, rfl⟩ := map_eq_ok _ _ _ read
          by_cases empty : run = []
          · subst empty
            obtain rfl := isTail_last op rest isTail
            cases later
            exact .nil
          · rw [if_neg empty] at later
            obtain ⟨x, others, nearest, last, rfl⟩ := readNumber_ok _ _ _ later
            have filled : (((op, run) :: rest).map Prod.snd).filter (· ≠ []) =
                run :: (rest.map Prod.snd).filter (· ≠ []) := by simp [empty]
            rw [filled]
            exact .cons nearest (ih (isTail_rest (op, run) rest isTail) others last)

/-- Of a keyed buffer that the scanner reads, the pieces that are not empty are the numbers of
its tokens, in order, each of them read as the value nearest to it; only that a minus at the head
of the buffer belongs to no piece, but to the first number. -/
theorem keyed_numbers (keys : List Key) (found : List (Token Double))
    (scanned : tokens (normalize (pressAll initial keys)) = .ok found) :
    ∃ values : List Double,
      List.Forall₂ IsNearest values ((pieces (pressAll initial keys)).filter (· ≠ [])) ∧
      found.filterMap Token.number? =
        if (pressAll initial keys).head? = some '-' then values.modifyHead (-·) else values := by
  have wellFormed := pressAll_wellFormed keys initial initial_wellFormed
  rcases parts_exist _ wellFormed with alone | ⟨sign, first, tail, parts⟩
  · -- A minus alone is an operator between two empty pieces.
    rw [alone, tokens_minus] at scanned
    cases scanned
    rw [alone]
    exact ⟨[], .nil, rfl⟩
  · rcases tokens_parts _ sign first tail parts with read | stops
    · rw [scanned] at read
      obtain ⟨x, behind, nearest, later, rfl⟩ := parts.readNumber_ok _ found read.symm
      have numbers := readTail_numbers tail parts.tail behind later
      rw [parts.filled]
      refine ⟨x :: behind.filterMap Token.number?, .cons nearest numbers, ?_⟩
      simp only [parts.head_minus_iff]
      split
      · rfl
      · rfl
    · rw [scanned] at stops
      cases stops

/-- A shown exponent that is typed anew, below zero and times a half: the sign in the exponent
cuts nothing, and the one at the head is not in the piece. -/
theorem keyed_numbers_edited :
    let keys : List Key := [.digit 1, .operator .divide, .digit 1, .digit 0, .digit 0, .digit 0,
      .digit 0, .digit 0, .digit 0, .digit 0, .equals, .backspace, .digit 3, .sign,
      .operator .times, .point, .digit 5]
    ∃ found values, tokens (normalize (pressAll initial keys)) = .ok found ∧
      List.Forall₂ IsNearest values [['1', 'e', '-', '3'], ['.', '5']] ∧
      found.filterMap Token.number? = values.modifyHead (-·) := by
  intro keys
  have typed : pressAll initial keys = ['-', '1', 'e', '-', '3', 'x', '.', '5'] := by
    decide +kernel
  have wellFormed := pressAll_wellFormed keys initial initial_wellFormed
  have plain : '%' ∉ pressAll initial keys := by
    rw [typed]
    decide
  have complete : endsInOperator (pressAll initial keys) = false ∧
      ¬ EndsAtMark (pressAll initial keys) ∧ ['.'] ∉ pieces (pressAll initial keys) := by
    rw [not_endsAtMark_iff _ plain, typed]
    decide
  obtain ⟨found, scanned, _⟩ := (alternates_iff_complete _ wellFormed plain).mpr complete
  obtain ⟨values, nearest, numbers⟩ := keyed_numbers keys found scanned
  rw [typed] at nearest numbers
  exact ⟨found, values, scanned, nearest, numbers⟩

end Buffer

end DeskCalculator
