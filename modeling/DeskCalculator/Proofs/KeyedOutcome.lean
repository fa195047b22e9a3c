import DeskCalculator.Proofs.ScannedBuffer

/-!
What comes of evaluating a buffer that was keyed in. Keys cannot make a text with two points in
a number, a blank one or one with a foreign character, so few errors are left; and whether
there is a result shows in how the buffer ends, in what stands behind an exponent mark and in
whether a piece is a point alone.
-/

namespace DeskCalculator.Buffer

/-- An exponent mark is followed by nothing, or by an operator that is no sign. -/
def EndsAtMark (buffer : Buffer) : Prop :=
  buffer.getLast? = some 'e' ∨
    ∃ op : Operator, isSign op.glyph = false ∧ ['e', op.glyph] <:+: buffer

/-- With a single mark it is enough to look behind it. -/
theorem endsAtMark_iff (front after : Text) (absent : 'e' ∉ front) (later : 'e' ∉ after) :
    EndsAtMark (front ++ 'e' :: after) ↔
      after = [] ∨ ∃ op : Operator, isSign op.glyph = false ∧ after.head? = some op.glyph := by
  have last : (front ++ 'e' :: after).getLast? = some 'e' ↔ after = [] := by
    constructor
    · intro same
      rcases List.eq_nil_or_concat after with none | ⟨inner, c, rfl⟩
      · exact none
      · rw [List.concat_eq_append, ← List.cons_append, ← List.append_assoc,
          List.getLast?_concat] at same
        cases same
        simp at later
    · rintro rfl
      exact List.getLast?_concat
  have behind (c : Char) : ['e', c] <:+: front ++ 'e' :: after ↔ after.head? = some c := by
    constructor
    · rintro ⟨before, rest, same⟩
      rw [List.append_assoc, List.cons_append, List.cons_append, List.nil_append] at same
      obtain ⟨_, _, rfl⟩ := (List.append_cons_inj_of_notMem absent later).mp same.symm
      rfl
    · intro head
      obtain ⟨rest, rfl⟩ := List.head?_eq_some_iff.mp head
      exact ⟨front, rest, by simp⟩
  simp only [EndsAtMark, last, behind]

theorem not_endsAtMark_of_absent (buffer : Buffer) (absent : 'e' ∉ buffer) :
    ¬ EndsAtMark buffer := by
  rintro (last | ⟨op, _, inside⟩)
  · exact absent (List.mem_of_getLast? last)
  · exact absent (inside.subset List.mem_cons_self)

theorem mark_not_mem_run (sign run : Text) (signPart : IsSignPart sign)
    (inside : ∀ c ∈ run, isMantissaChar c = true) : 'e' ∉ sign ++ run := by
  intro member
  rcases List.mem_append.mp member with inSign | inRun
  · exact absurd (signPart_inside sign signPart 'e' inSign) (by decide)
  · exact absurd (inside 'e' inRun) (by decide)

theorem mark_not_mem_tailText (tail : List (Operator × Text)) (isTail : IsTail tail) :
    'e' ∉ tailText tail := by
  intro member
  obtain ⟨pair, inTail, inPair⟩ := List.mem_flatMap.mp member
  rcases List.mem_cons.mp inPair with glyph | inRun
  · have operator := isOperator_glyph pair.1
    rw [← glyph] at operator
    exact absurd operator (by decide)
  · exact absurd ((isTail.runs pair inTail).inside 'e' inRun) (by decide)

theorem not_endsAtMark_scaled (sign digits rest : Text) (signPart : IsSignPart sign)
    (present : digits ≠ []) (inside : ∀ c ∈ digits, c.isDigit = true) :
    ¬ (sign ++ (digits ++ rest) = [] ∨ ∃ op : Operator, isSign op.glyph = false ∧
      (sign ++ (digits ++ rest)).head? = some op.glyph) := by
  cases digits with
  | nil => exact absurd rfl present
  | cons digit digits =>
      rintro (empty | ⟨op, unsigned, head⟩)
      · simp at empty
      · rcases signPart with rfl | rfl | rfl
        · cases head
          have digit := inside _ List.mem_cons_self
          have operator := isOperator_eq_false_of_digit _ digit
          rw [isOperator_glyph] at operator
          cases operator
        all_goals
          cases op <;> cases head
          cases unsigned

theorem endsAtMark_unscaled (front exponentSign : Text) (tail : List (Operator × Text))
    (signPart : IsSignPart exponentSign)
    (unsigned : exponentSign = [] → ∀ pair ∈ tail.head?, isSign pair.1.glyph = false)
    (last : exponentSign ≠ [] → tail = []) (absent : 'e' ∉ front)
    (later : 'e' ∉ exponentSign ++ tailText tail) :
    EndsAtMark (front ++ 'e' :: (exponentSign ++ tailText tail)) ∨
      endsInOperator (front ++ 'e' :: (exponentSign ++ tailText tail)) = true := by
  by_cases none : exponentSign = []
  · left
    rw [endsAtMark_iff front _ absent later]
    subst none
    cases tail with
    | nil => exact Or.inl rfl
    | cons pair rest => exact Or.inr ⟨pair.1, unsigned rfl pair rfl, by simp [tailText]⟩
  · right
    rw [last none]
    rcases signPart with rfl | rfl | rfl
    · exact absurd rfl none
    all_goals
      simp [tailText, endsInOperator, List.getLast?_append, List.getLast?_cons]
      decide

/-- What the scanner makes of a buffer by its parts: it stops at a first number that is a point
alone or has a mark without digits, and otherwise it goes on to the tail. -/
theorem tokens_cases (buffer : Buffer) (sign first : Text) (tail : List (Operator × Text))
    (parts : HasParts buffer sign first tail) :
    (first = ['.'] ∧ tokens (normalize buffer) = .error (.malformedNumber (sign ++ ['.']))) ∨
    (first ≠ ['.'] ∧ EndsInNumber first ∧ ¬ EndsAtMark buffer ∧
      ∃ x : Double, tokens (normalize buffer) = (.number x :: ·) <$> readTail tail) ∨
    ((EndsAtMark buffer ∨ endsInOperator buffer = true) ∧
      tokens (normalize buffer) = .error (.unexpectedChar 'e')) := by
  obtain ⟨rfl, _, signed, isFirst, isTail⟩ := parts
  have signPart : IsSignPart sign := signed.imp_right Or.inr
  have markless := mark_not_mem_tailText tail isTail
  cases isFirst with
  | run _ isRun present =>
      have read := tokens_run sign first tail signed isRun present isTail
      rcases readNumber_run sign first signed isRun present with ⟨point, stops⟩ |
        ⟨notPoint, x, continues⟩
      · exact Or.inl ⟨point, by rw [read, stops]⟩
      · refine Or.inr (Or.inl ⟨notPoint, endsInNumber_append [] first present isRun.inside, ?_,
          x, by rw [read, continues]⟩)
        apply not_endsAtMark_of_absent
        rw [← List.append_assoc]
        exact List.not_mem_append (mark_not_mem_run sign first signPart isRun.inside) markless
  | scaled base exponentSign digits normalized exponentPart present inside =>
      have isMantissa := isMantissa_of_normalized base normalized
      have isLiteral := isLiteral_signed sign base ('e' :: (exponentSign ++ digits)) signed
        isMantissa (Or.inr ⟨'e', exponentSign, digits, rfl, Or.inl rfl, exponentPart, present,
          inside⟩)
      have mantissaDigits : ∀ c ∈ digits, isMantissaChar c = true :=
        fun c member => isMantissaChar_of_isDigit (inside c member)
      have before := mark_not_mem_run sign base signPart (mantissa_inside base isMantissa)
      have behind : 'e' ∉ exponentSign ++ (digits ++ tailText tail) := by
        rw [← List.append_assoc]
        exact List.not_mem_append (mark_not_mem_run _ digits exponentPart mantissaDigits)
          markless
      have split : sign ++ (base ++ 'e' :: (exponentSign ++ digits) ++ tailText tail) =
          (sign ++ base) ++ 'e' :: (exponentSign ++ (digits ++ tailText tail)) := by simp
      have read := tokens_scaled _ tail isLiteral isTail
      obtain ⟨x, number⟩ := readNumber_literal _ isLiteral
      rw [number, List.append_assoc] at read
      refine Or.inr (Or.inl ⟨?_, ?_, ?_, x, read⟩)
      · intro same
        have mark : 'e' ∈ ['.'] := by
          rw [← same]
          simp
        exact absurd mark (by decide)
      · simpa using endsInNumber_append (base ++ 'e' :: exponentSign) digits present
          mantissaDigits
      · rw [split, endsAtMark_iff _ _ before behind]
        exact not_endsAtMark_scaled exponentSign digits _ exponentPart present inside
  | unscaled base exponentSign normalized exponentPart unsigned last =>
      have isMantissa := isMantissa_of_normalized base normalized
      have before := mark_not_mem_run sign base signPart (mantissa_inside base isMantissa)
      have behind : 'e' ∉ exponentSign ++ tailText tail := by
        have alone := mark_not_mem_run exponentSign [] exponentPart (by simp)
        rw [List.append_nil] at alone
        exact List.not_mem_append alone markless
      have split : sign ++ (base ++ 'e' :: exponentSign ++ tailText tail) =
          (sign ++ base) ++ 'e' :: (exponentSign ++ tailText tail) := by simp
      refine Or.inr (Or.inr ⟨?_, tokens_unscaled sign base exponentSign tail signed isMantissa
        exponentPart unsigned last⟩)
      rw [split]
      exact endsAtMark_unscaled (sign ++ base) exponentSign tail exponentPart unsigned last before
        behind

theorem endsInOperator_eq_false_iff (buffer : Buffer) :
    endsInOperator buffer = false ↔ ∀ op : Operator, buffer.getLast? ≠ some op.glyph := by
  cases last : buffer.getLast? with
  | none => simp [endsInOperator, last]
  | some c =>
      simp only [endsInOperator, last, Option.any_some, ne_eq, Option.some.injEq]
      constructor
      · rintro number op rfl
        rw [isOperator_glyph] at number
        cases number
      · intro other
        cases found : Operator.ofGlyph? c with
        | none => simp [isOperator, found]
        | some op => exact absurd (Operator.ofGlyph?_eq_some c op found).symm (other op)

theorem endsInOperator_of_endsInNumber (buffer : Buffer) (ends : EndsInNumber buffer) :
    endsInOperator buffer = false := by
  obtain ⟨front, c, rfl, inside⟩ := ends
  simp [endsInOperator, isOperator_eq_false_of_mantissa c inside]

theorem endsInOperator_tail (tail : List (Operator × Text)) (front : Text)
    (isTail : IsTail tail) (ends : EndsInNumber front) :
    endsInOperator (front ++ tailText tail) = false ↔ ∀ pair ∈ tail, pair.2 ≠ [] := by
  induction tail generalizing front with
  | nil => simpa [tailText] using endsInOperator_of_endsInNumber front ends
  | cons pair rest ih =>
      obtain ⟨op, run⟩ := pair
      by_cases empty : run = []
      · subst empty
        rw [isTail_last op rest isTail]
        simp [tailText, endsInOperator, isOperator_glyph]
      · have inside := (isTail.runs (op, run) List.mem_cons_self).inside
        have later := ih (front ++ [op.glyph] ++ run) (isTail_rest (op, run) rest isTail)
          (endsInNumber_append _ run empty inside)
        simpa [empty] using later

theorem point_not_mem_pieces_iff (buffer : Buffer) (sign first : Text)
    (tail : List (Operator × Text)) (parts : HasParts buffer sign first tail) :
    ['.'] ∉ pieces buffer ↔ first ≠ ['.'] ∧ ∀ pair ∈ tail, pair.2 ≠ ['.'] := by
  have inTail : ['.'] ∈ tail.map Prod.snd ↔ ∃ pair ∈ tail, pair.2 = ['.'] := List.mem_map
  have inFirst : ['.'] ∈ pieces buffer ↔ first = ['.'] ∨ ['.'] ∈ tail.map Prod.snd := by
    rw [parts.cut, List.mem_append, List.mem_cons, eq_comm]
    rcases parts.sign with rfl | rfl <;> simp
  rw [inFirst, inTail]
  push Not
  rfl

theorem plain_tail (buffer : Buffer) (sign first : Text) (tail : List (Operator × Text))
    (parts : HasParts buffer sign first tail) (plain : '%' ∉ buffer) :
    ∀ pair ∈ tail, pair.1 ≠ .modulo := by
  rintro pair member modulo
  have inTail : pair.1.glyph ∈ tailText tail :=
    List.mem_flatMap.mpr ⟨pair, member, List.mem_cons_self⟩
  rw [modulo] at inTail
  apply plain
  rw [parts.joined]
  exact List.mem_append_right sign (List.mem_append_right first inTail)

theorem tokens_minus : tokens (normalize ['-']) = .ok [.operator .subtract] := by
  simp [normalize, arithmeticSymbol, tokens, tokensFrom, startsNumber, isMantissaChar,
    show isBlank '-' = false by decide,
    show Operation.ofSymbol? '-' = some .subtract by decide]

/-- Without percent signs, the scanner reads operands and operators in turns unless the buffer
ends in an operator, breaks off at an exponent mark or has a point alone for a piece. -/
theorem alternates_iff_complete (buffer : Buffer) (wellFormed : WellFormed buffer)
    (plain : '%' ∉ buffer) :
    (∃ found, tokens (normalize buffer) = .ok found ∧
        Postfix.alternates true found = true) ↔
      endsInOperator buffer = false ∧ ¬ EndsAtMark buffer ∧ ['.'] ∉ pieces buffer := by
  rcases parts_exist buffer wellFormed with rfl | ⟨sign, first, tail, parts⟩
  · have ends : endsInOperator ['-'] = true := by decide
    simp [tokens_minus, ends, Postfix.alternates]
  · have points := point_not_mem_pieces_iff buffer sign first tail parts
    rcases tokens_cases buffer sign first tail parts with ⟨point, stops⟩ |
      ⟨notPoint, endsInNumber, closed, x, read⟩ | ⟨broken, stops⟩
    · simp [stops, points, point]
    · have ends : endsInOperator buffer = false ↔ ∀ pair ∈ tail, pair.2 ≠ [] := by
        obtain ⟨front, c, rfl, inside⟩ := endsInNumber
        have joined := parts.joined
        rw [← List.append_assoc] at joined
        rw [joined]
        exact endsInOperator_tail tail _ parts.tail ⟨sign ++ front, c, by simp, inside⟩
      have turns := readTail_alternates tail parts.tail (plain_tail buffer sign first tail parts
        plain)
      have same : (∃ found, tokens (normalize buffer) = .ok found ∧
          Postfix.alternates true found = true) ↔
          ∃ found, readTail tail = .ok found ∧ Postfix.alternates false found = true := by
        rw [read]
        cases readTail tail <;> simp [Postfix.alternates]
      rw [same, turns, ends, points, forall₂_and]
      simp only [closed, notPoint, ne_eq, not_false_eq_true, true_and]
    · rw [stops]
      rcases broken with atMark | operator
      · simp [atMark]
      · simp [operator]

theorem characters_solid (buffer : Buffer) (wellFormed : WellFormed buffer) :
    ¬ ∀ c ∈ buffer, isBlank c = true := by
  intro blank
  obtain ⟨c, member⟩ := List.exists_mem_of_ne_nil buffer wellFormed.nonempty
  have blankHere := blank c member
  rcases wellFormed.characters c member with digit | other
  · rw [isBlank_eq_false_of_isDigit c digit] at blankHere
    cases blankHere
  · simp only [List.mem_cons, List.not_mem_nil, or_false] at other
    rcases other with rfl | rfl | rfl | rfl | rfl | rfl | rfl <;>
      exact absurd blankHere (by decide)

theorem not_endsAtMark_iff (buffer : Buffer) (plain : '%' ∉ buffer) :
    ¬ EndsAtMark buffer ↔ buffer.getLast? ≠ some 'e' ∧ ¬ ['e', 'x'] <:+: buffer ∧
      ¬ ['e', '÷'] <:+: buffer := by
  have noPercent : ¬ ['e', '%'] <:+: buffer := fun inside => plain (inside.subset (by simp))
  constructor
  · intro closed
    exact ⟨fun last => closed (Or.inl last),
      fun product => closed (Or.inr ⟨.times, by decide, product⟩),
      fun quotient => closed (Or.inr ⟨.divide, by decide, quotient⟩)⟩
  · rintro ⟨notLast, noProduct, noQuotient⟩ (last | ⟨op, unsigned, inside⟩)
    · exact notLast last
    · cases op with
      | plus => cases unsigned
      | minus => cases unsigned
      | times => exact noProduct inside
      | divide => exact noQuotient inside
      | modulo => exact noPercent inside

/-- Which keyed buffers without a percent sign can be evaluated: those that end in no operator
and in no exponent mark, where no product or quotient follows a mark, and where no piece is a
point alone. -/
theorem keyed_evaluable_iff (keys : List Key) (plain : '%' ∉ pressAll initial keys) :
    ((∃ shown, evaluate (pressAll initial keys) = .ok shown) ∨
        evaluate (pressAll initial keys) = .error .notFinite) ↔
      (∀ op : Operator, (pressAll initial keys).getLast? ≠ some op.glyph) ∧
      (pressAll initial keys).getLast? ≠ some 'e' ∧
      ¬ ['e', 'x'] <:+: pressAll initial keys ∧ ¬ ['e', '÷'] <:+: pressAll initial keys ∧
      ['.'] ∉ pieces (pressAll initial keys) := by
  have wellFormed := pressAll_wellFormed keys initial initial_wellFormed
  have normalPlain := mt (percent_mem_normalize _).mp plain
  rw [evaluable_iff _ (characters_solid _ wellFormed), accepted_iff_isInfix _ normalPlain,
    ← tokens_alternate_iff, alternates_iff_complete _ wellFormed plain,
    endsInOperator_eq_false_iff, not_endsAtMark_iff _ plain]
  simp only [and_assoc]

theorem keyed_evaluable_iff_edited :
    let keys : List Key := [.digit 1, .operator .divide, .digit 1, .digit 0, .digit 0, .digit 0,
      .digit 0, .digit 0, .digit 0, .digit 0, .equals, .backspace, .digit 3, .operator .times,
      .point, .digit 5]
    pressAll initial keys = ['1', 'e', '-', '3', 'x', '.', '5'] ∧
      '%' ∉ pressAll initial keys ∧
      ((∃ shown, evaluate (pressAll initial keys) = .ok shown) ∨
        evaluate (pressAll initial keys) = .error .notFinite) := by
  intro keys
  have typed : pressAll initial keys = ['1', 'e', '-', '3', 'x', '.', '5'] := by decide +kernel
  have plain : '%' ∉ pressAll initial keys := by
    rw [typed]
    decide
  refine ⟨typed, plain, (keyed_evaluable_iff keys plain).mpr ?_⟩
  rw [typed]
  refine ⟨fun op => ?_, by decide, by decide, by decide, by decide⟩
  cases op <;> decide

theorem tokens_error_cases (buffer : Buffer) (wellFormed : WellFormed buffer)
    (cause : EvalError) (stopped : tokens (normalize buffer) = .error cause) :
    cause ∈ [.unexpectedChar '%', .unexpectedChar 'e', .malformedNumber ['.'],
      .malformedNumber ['-', '.']] := by
  rcases parts_exist buffer wellFormed with rfl | ⟨sign, first, tail, parts⟩
  · rw [tokens_minus] at stopped
    cases stopped
  · rcases tokens_cases buffer sign first tail parts with ⟨_, read⟩ | ⟨_, _, _, x, read⟩ |
      ⟨_, read⟩
    · rw [read] at stopped
      cases stopped
      rcases parts.sign with rfl | rfl <;> simp
    · rw [read] at stopped
      rcases readTail_error tail parts.tail cause (map_eq_error _ _ cause stopped) with
        rfl | rfl <;> simp
    · rw [read] at stopped
      cases stopped
      simp

/-- A closing percent sign is dropped from a well formed buffer, which leaves one. -/
theorem expression_wellFormed (buffer : Buffer) (wellFormed : WellFormed buffer) :
    ∃ inner, WellFormed inner ∧
      (if (normalize buffer).getLast? = some '%' then (normalize buffer).dropLast
        else normalize buffer) = normalize inner := by
  by_cases closed : (normalize buffer).getLast? = some '%'
  · obtain ⟨front, c, rfl⟩ : ∃ front c, buffer = front ++ [c] := by
      rcases List.eq_nil_or_concat buffer with none | ⟨front, c, split⟩
      · exact absurd none wellFormed.nonempty
      · exact ⟨front, c, by rw [split, List.concat_eq_append]⟩
    rw [if_pos closed, normalize_append]
    have isPercent : c = '%' := by
      simpa [normalize, arithmeticSymbol_percent] using closed
    subst isPercent
    refine ⟨front, wellFormed_front front '%' wellFormed ?_, by simp [normalize]⟩
    rintro rfl
    exact absurd (wellFormed.head '%' rfl (by decide)) (by decide)
  · exact ⟨buffer, wellFormed, if_neg closed⟩

theorem evaluate_error_cases (buffer : Buffer) (wellFormed : WellFormed buffer)
    (cause : EvalError) (failed : evaluate buffer = .error cause) :
    cause ∈ [.malformedExpression, .notFinite, .unexpectedChar '%', .unexpectedChar 'e',
      .malformedNumber ['.'], .malformedNumber ['-', '.']] := by
  have solid := characters_solid buffer wellFormed
  rw [evaluate_of_solid buffer (by simpa using solid)] at failed
  cases value : (Request.ofText (normalize buffer)).value with
  | ok v =>
      rw [value, Except.bind] at failed
      rcases display_cases v with ⟨shown, found⟩ | found
      · rw [found] at failed
        cases failed
      · rw [found] at failed
        cases failed
        simp
  | error other =>
      rw [value] at failed
      cases failed
      obtain ⟨inner, formed, same⟩ := expression_wellFormed buffer wellFormed
      have expression := request_error _ cause value
      rw [same] at expression
      rcases expressionValue_error _ cause expression with stopped | malformed
      · have refused := tokens_error_cases inner formed cause stopped
        simp only [List.mem_cons, List.not_mem_nil, or_false] at refused ⊢
        exact Or.inr (Or.inr refused)
      · simp [malformed]

/-- When a keyed buffer has no result, the cause is one of six, and the equals key leaves the
buffer as it is. -/
theorem keyed_error_cases (keys : List Key) (cause : EvalError)
    (failed : evaluate (pressAll initial keys) = .error cause) :
    cause ∈ [.malformedExpression, .notFinite, .unexpectedChar '%', .unexpectedChar 'e',
      .malformedNumber ['.'], .malformedNumber ['-', '.']] ∧
    pressAll initial (keys ++ [.equals]) = pressAll initial keys := by
  have wellFormed := pressAll_wellFormed keys initial initial_wellFormed
  refine ⟨evaluate_error_cases _ wellFormed cause failed, ?_⟩
  rw [pressAll_append]
  exact result_of_error _ cause failed

theorem keyed_error_cases_point :
    evaluate (pressAll initial [.point, .sign]) = .error (.malformedNumber ['-', '.']) ∧
      pressAll initial [.point, .sign, .equals] = pressAll initial [.point, .sign] := by
  have failed : evaluate (pressAll initial [.point, .sign]) =
      .error (.malformedNumber ['-', '.']) := by decide +kernel
  exact ⟨failed, (keyed_error_cases [.point, .sign] _ failed).2⟩

end DeskCalculator.Buffer
