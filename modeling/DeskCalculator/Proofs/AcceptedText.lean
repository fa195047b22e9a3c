import DeskCalculator.Proofs.InfixGrammar
import DeskCalculator.Proofs.LiteralValue

/-!
What evaluation accepts, over all texts and with the glyphs of the display read as symbols: two
finite numbers around a percent sign, an infix expression, or such an expression closed by one
percent sign. An accepted text has a result to show unless its value is not finite; of the
others the blank ones fail as empty and the rest for their shape.
-/

namespace DeskCalculator

/-- The symbol that a character is read as: the glyphs of a product and of a quotient are those
of arithmetic, and every other character is itself. -/
inductive StandsFor : Char → Char → Prop where
  | letter : StandsFor 'x' '*'
  | capital : StandsFor 'X' '*'
  | cross : StandsFor '×' '*'
  | obelus : StandsFor '÷' '/'
  | other {c : Char} (kept : c ∉ ['x', 'X', '×', '÷']) : StandsFor c c

def Replaced (text replaced : Text) : Prop := List.Forall₂ StandsFor text replaced

/-- The number nearest to what the text writes is finite. -/
def IsFiniteLiteral (text : Text) : Prop :=
  ∃ x : FiniteNumber .double, IsNearest (.finite x) text

def IsRemainder (text : Text) : Prop :=
  ∃ left right, text = left ++ '%' :: right ∧ Padded IsFiniteLiteral left ∧
    Padded IsFiniteLiteral right

def Accepted (text : Text) : Prop :=
  IsRemainder text ∨ IsInfix text ∨ ∃ expression, text = expression ++ ['%'] ∧
    IsInfix expression

theorem standsFor_iff (c symbol : Char) : StandsFor c symbol ↔ symbol = arithmeticSymbol c := by
  constructor
  · rintro (_ | _ | _ | _ | kept)
    · rfl
    · rfl
    · rfl
    · rfl
    · simp only [List.mem_cons, List.not_mem_nil, or_false, not_or] at kept
      simp [arithmeticSymbol, kept]
  · rintro rfl
    rw [arithmeticSymbol]
    split
    · rename_i product
      rcases product with rfl | rfl | rfl
      · exact .letter
      · exact .capital
      · exact .cross
    · rename_i noProduct
      split
      · rename_i quotient
        rw [quotient]
        exact .obelus
      · rename_i noQuotient
        simp only [not_or] at noProduct
        exact .other (by simp [noProduct, noQuotient])

theorem replaced_iff (text replaced : Text) :
    Replaced text replaced ↔ replaced = normalize text :=
  forall₂_eq_map StandsFor arithmeticSymbol text replaced standsFor_iff

theorem IsFiniteLiteral.isLiteral {text : Text} (finite : IsFiniteLiteral text) :
    IsLiteral text :=
  finite.elim fun _ nearest => nearest.isLiteral

theorem literal_solid (literal : Text) (isLiteral : IsLiteral literal) :
    (∀ c ∈ literal, isBlank c = false) ∧ literal ≠ [] := by
  constructor
  · intro c member
    exact isBlank_eq_false_of_isLiteralChar c (isLiteralChar_of_mem literal isLiteral c member)
  · obtain ⟨sign, mantissa, exponent, rfl, _, ⟨_, _, digit, member, _⟩, _⟩ := isLiteral
    intro absent
    simp [(List.append_eq_nil_iff.mp (List.append_eq_nil_iff.mp absent).2).1] at member

theorem stopsBlank_of_solid (core rest : Text) (present : core ≠ [])
    (solid : ∀ c ∈ core, isBlank c = false) : StopsSpan isBlank (core ++ rest) := by
  cases core with
  | nil => exact absurd rfl present
  | cons c core => exact (stopsSpan_cons _ _ _).mpr (solid c List.mem_cons_self)

theorem trim_solid (before core after : Text) (blankBefore : ∀ c ∈ before, isBlank c = true)
    (blankAfter : ∀ c ∈ after, isBlank c = true) (present : core ≠ [])
    (solid : ∀ c ∈ core, isBlank c = false) : trim (before ++ (core ++ after)) = core := by
  rw [trim, dropWhile_span isBlank before _ blankBefore
    (stopsBlank_of_solid core after present solid), List.reverse_append,
    dropWhile_span isBlank after.reverse core.reverse (by simpa using blankAfter),
    List.reverse_reverse]
  have reversed := stopsBlank_of_solid core.reverse [] (by simpa using present)
    (by simpa using solid)
  simpa using reversed

-- The blanks at the end are a span of the reversed text, so the cut is made there.
theorem trim_padding (text : Text) :
    ∃ before after, text = before ++ (trim text ++ after) ∧
      (∀ c ∈ before, isBlank c = true) ∧ ∀ c ∈ after, isBlank c = true := by
  let tail := (text.dropWhile isBlank).reverse
  have tailSplit : (tail.dropWhile isBlank).reverse ++ (tail.takeWhile isBlank).reverse =
      text.dropWhile isBlank := by
    rw [← List.reverse_append, List.takeWhile_append_dropWhile]
    exact List.reverse_reverse _
  refine ⟨text.takeWhile isBlank, (tail.takeWhile isBlank).reverse, ?_,
    takeWhile_inside isBlank text, ?_⟩
  · change text = _ ++ ((tail.dropWhile isBlank).reverse ++ _)
    rw [tailSplit, List.takeWhile_append_dropWhile]
  · intro c member
    exact takeWhile_inside isBlank _ c (List.mem_reverse.mp member)

/-- Only a finite number gets past the conversion. -/
theorem toFinite?_eq_some_iff (v : Double) (x : FiniteNumber .double) :
    v.toFinite? = some x ↔ v = .finite x := by
  cases v <;> simp [Number.toFinite?]

theorem simpleNumber?_iff_padded (text : Text) (x : FiniteNumber .double) :
    simpleNumber? text = some x ↔ Padded (IsNearest (.finite x)) text := by
  constructor
  · intro found
    obtain ⟨d, read, finite⟩ := Option.bind_eq_some_iff.mp found
    obtain ⟨before, after, split, blankBefore, blankAfter⟩ := trim_padding text
    have nearest : IsNearest (.finite x) (trim text) :=
      (isNearest_iff_read _ _).mpr ⟨d, read, (toFinite?_eq_some_iff _ x).mp finite⟩
    exact ⟨before, trim text, after, split, blankBefore, nearest, blankAfter⟩
  · rintro ⟨before, core, after, rfl, blankBefore, nearest, blankAfter⟩
    obtain ⟨solid, present⟩ := literal_solid core nearest.isLiteral
    obtain ⟨d, read, finite⟩ := (isNearest_iff_read _ _).mp nearest
    rw [simpleNumber?, trim_solid before core after blankBefore blankAfter present solid, read]
    exact (toFinite?_eq_some_iff _ x).mpr finite

theorem simpleNumber?_isSome_iff (text : Text) :
    (simpleNumber? text).isSome = true ↔ Padded IsFiniteLiteral text := by
  rw [Option.isSome_iff_exists]
  constructor
  · rintro ⟨x, found⟩
    exact ((simpleNumber?_iff_padded text x).mp found).mono fun core nearest => ⟨x, nearest⟩
  · rintro ⟨before, core, after, split, blankBefore, ⟨x, nearest⟩, blankAfter⟩
    exact ⟨x, (simpleNumber?_iff_padded text x).mpr
      ⟨before, core, after, split, blankBefore, nearest, blankAfter⟩⟩

theorem Padded.no_percent {IsCore : Text → Prop} {text : Text} (padded : Padded IsCore text)
    (literal : ∀ core, IsCore core → IsLiteral core) : '%' ∉ text := by
  rcases padded with ⟨before, core, after, rfl, blankBefore, isCore, blankAfter⟩
  simp only [List.mem_append]
  rintro (inBefore | inCore | inAfter)
  · exact absurd (blankBefore '%' inBefore) (by decide)
  · exact absurd (isLiteralChar_of_mem core (literal core isCore) '%' inCore) (by decide)
  · exact absurd (blankAfter '%' inAfter) (by decide)

theorem IsInfix.no_percent {text : Text} (isInfix : IsInfix text) : '%' ∉ text := by
  induction isInfix with
  | operand number => exact number.no_percent fun _ isLiteral => isLiteral
  | operation op number _ ih =>
      have inNumber := number.no_percent fun _ isLiteral => isLiteral
      have notSymbol : '%' ≠ op.symbol := by cases op <;> decide
      simp only [List.mem_append, List.mem_cons]
      rintro (left | symbol | right)
      · exact inNumber left
      · exact notSymbol symbol
      · exact ih right

theorem Padded.has_solid {text : Text} (number : Padded IsLiteral text) :
    ∃ c ∈ text, isBlank c = false := by
  rcases number with ⟨before, core, after, rfl, _, isLiteral, _⟩
  have facts := literal_solid core isLiteral
  rcases List.exists_mem_of_ne_nil core facts.2 with ⟨c, member⟩
  exact ⟨c, by simp [member], facts.1 c member⟩

theorem IsInfix.has_solid {text : Text} (isInfix : IsInfix text) :
    ∃ c ∈ text, isBlank c = false := by
  cases isInfix with
  | operand number => exact number.has_solid
  | operation op number _ =>
      rcases number.has_solid with ⟨c, member, solid⟩
      exact ⟨c, List.mem_append_left _ member, solid⟩

theorem Accepted.has_solid {text : Text} (accepted : Accepted text) :
    ∃ c ∈ text, isBlank c = false := by
  rcases accepted with ⟨left, right, rfl, number, _⟩ | isInfix | ⟨expression, rfl, isInfix⟩
  · exact ⟨'%', by simp, by decide⟩
  · exact isInfix.has_solid
  · exact ⟨'%', by simp, by decide⟩

theorem splitPercent?_append (left right : Text) (absent : '%' ∉ left) :
    splitPercent? (left ++ '%' :: right) = some (left, right) := by
  have inside : ∀ c ∈ left, (c != '%') = true := by
    intro c member
    simpa using fun same : c = '%' => absent (same ▸ member)
  have stops : StopsSpan (· != '%') ('%' :: right) := (stopsSpan_cons _ _ _).mpr (by decide)
  simp only [splitPercent?, dropWhile_span _ left _ inside stops,
    takeWhile_span _ left _ inside stops]

theorem splitPercent?_sound (text left right : Text)
    (found : splitPercent? text = some (left, right)) : text = left ++ '%' :: right := by
  have split : text.takeWhile (· != '%') ++ text.dropWhile (· != '%') = text :=
    List.takeWhile_append_dropWhile
  cases tail : text.dropWhile (· != '%') with
  | nil => simp [splitPercent?, tail] at found
  | cons mark after =>
      have stops := stopsSpan_dropWhile (· != '%') text
      rw [tail, stopsSpan_cons] at stops
      have isPercent : mark = '%' := by simpa using stops
      simp only [splitPercent?, tail, Option.some.injEq, Prod.mk.injEq] at found
      rw [tail, found.1, found.2, isPercent] at split
      exact split.symm

theorem remainder?_of_isRemainder (text : Text) (isRemainder : IsRemainder text) :
    (Request.remainder? text).isSome = true := by
  rcases isRemainder with ⟨left, right, rfl, leftNumber, rightNumber⟩
  have absent := leftNumber.no_percent fun _ finite => finite.isLiteral
  rcases Option.isSome_iff_exists.mp ((simpleNumber?_isSome_iff left).mpr leftNumber) with
    ⟨x, leftRead⟩
  rcases Option.isSome_iff_exists.mp ((simpleNumber?_isSome_iff right).mpr rightNumber) with
    ⟨y, rightRead⟩
  simp [Request.remainder?, splitPercent?_append left right absent, leftRead, rightRead]

theorem remainder?_sound (text : Text) (request : Request)
    (found : Request.remainder? text = some request) :
    IsRemainder text ∧ ∃ v, request.value = .ok v := by
  cases split : splitPercent? text with
  | none => simp [Request.remainder?, split] at found
  | some sides =>
      cases leftRead : simpleNumber? sides.1 with
      | none => simp [Request.remainder?, split, leftRead] at found
      | some x =>
          cases rightRead : simpleNumber? sides.2 with
          | none => simp [Request.remainder?, split, leftRead, rightRead] at found
          | some y =>
              simp [Request.remainder?, split, leftRead, rightRead] at found
              subst found
              exact ⟨⟨sides.1, sides.2, splitPercent?_sound text sides.1 sides.2 split,
                (simpleNumber?_isSome_iff sides.1).mp (by simp [leftRead]),
                (simpleNumber?_isSome_iff sides.2).mp (by simp [rightRead])⟩, _, rfl⟩

theorem hundredth?_sound (text : Text) (request : Request)
    (found : Request.hundredth? text = some request) :
    (∃ expression, text = expression ++ ['%'] ∧ IsInfix expression) ∧
      ∃ v, request.value = .ok v := by
  by_cases closed : text.getLast? = some '%'
  · rw [Request.hundredth?, if_pos closed] at found
    rcases Option.map_eq_some_iff.mp found with ⟨x, read, rfl⟩
    have number := (simpleNumber?_isSome_iff text.dropLast).mp (by simp [read])
    have split : text = text.dropLast ++ ['%'] := by
      rcases List.getLast?_eq_some_iff.mp closed with ⟨front, rfl⟩
      simp
    exact ⟨⟨text.dropLast, split, .operand (number.mono fun _ finite => finite.isLiteral)⟩, _, rfl⟩
  · simp [Request.hundredth?, closed] at found

/-- Once the remainder is out, a closing percent sign only has to be dropped. -/
theorem accepted_iff_expression (text : Text) (noRemainder : ¬ IsRemainder text) :
    Accepted text ↔
      IsInfix (if text.getLast? = some '%' then text.dropLast else text) := by
  by_cases closed : text.getLast? = some '%'
  · rcases List.getLast?_eq_some_iff.mp closed with ⟨front, rfl⟩
    rw [if_pos closed, List.dropLast_concat]
    constructor
    · rintro (isRemainder | isInfix | ⟨expression, same, isInfix⟩)
      · exact absurd isRemainder noRemainder
      · exact absurd (by simp) isInfix.no_percent
      · rw [(List.append_inj' same rfl).1]
        exact isInfix
    · intro isInfix
      exact Or.inr (Or.inr ⟨front, rfl, isInfix⟩)
  · rw [if_neg closed]
    constructor
    · rintro (isRemainder | isInfix | ⟨expression, rfl, _⟩)
      · exact absurd isRemainder noRemainder
      · exact isInfix
      · exact absurd (by simp) closed
    · intro isInfix
      exact Or.inr (Or.inl isInfix)

/-- An accepted request has a value, and any other fails for its shape. -/
theorem request_value_cases (text : Text) :
    (Accepted text ∧ ∃ v, (Request.ofText text).value = .ok v) ∨
    (¬ Accepted text ∧ ∃ cause, (Request.ofText text).value = .error cause ∧
      cause.ofShape = true) := by
  -- The readings in the order they are tried; each takes what the ones before it left.
  cases remainder : Request.remainder? text with
  | some request =>
      have facts := remainder?_sound text request remainder
      exact Or.inl ⟨Or.inl facts.1, by simpa [Request.ofText, remainder] using facts.2⟩
  | none =>
      have noRemainder : ¬ IsRemainder text := by
        intro isRemainder
        have found := remainder?_of_isRemainder text isRemainder
        rw [remainder] at found
        cases found
      cases hundredth : Request.hundredth? text with
      | some request =>
          have facts := hundredth?_sound text request hundredth
          exact Or.inl ⟨Or.inr (Or.inr facts.1),
            by simpa [Request.ofText, remainder, hundredth] using facts.2⟩
      | none =>
          rw [accepted_iff_expression text noRemainder]
          simpa [Request.ofText, remainder, hundredth, Request.value, and_comm] using
            expressionValue_cases (if text.getLast? = some '%' then text.dropLast else text)

/-- Only an expression fails; a remainder and a hundredth always have a value. -/
theorem request_error (text : Text) (cause : EvalError)
    (failed : (Request.ofText text).value = .error cause) :
    expressionValue (if text.getLast? = some '%' then text.dropLast else text) =
      .error cause := by
  cases remainder : Request.remainder? text with
  | some request =>
      obtain ⟨v, value⟩ := (remainder?_sound text request remainder).2
      simp [Request.ofText, remainder, value] at failed
  | none =>
      cases hundredth : Request.hundredth? text with
      | some request =>
          obtain ⟨v, value⟩ := (hundredth?_sound text request hundredth).2
          simp [Request.ofText, remainder, hundredth, value] at failed
      | none => simpa [Request.ofText, remainder, hundredth, Request.value] using failed

theorem isBlank_arithmeticSymbol (c : Char) : isBlank (arithmeticSymbol c) = isBlank c := by
  unfold arithmeticSymbol
  split
  · rename_i product
    rcases product with rfl | rfl | rfl <;> decide
  · split
    · rename_i quotient
      subst quotient
      decide
    · rfl

theorem blank_of_normalize (text : Text) :
    (∀ c ∈ normalize text, isBlank c = true) ↔ ∀ c ∈ text, isBlank c = true := by
  simp [normalize, isBlank_arithmeticSymbol]

theorem arithmeticSymbol_percent (c : Char) : arithmeticSymbol c = '%' ↔ c = '%' := by
  unfold arithmeticSymbol
  split
  · rename_i product
    rcases product with rfl | rfl | rfl <;> decide
  · split
    · rename_i quotient
      subst quotient
      decide
    · rfl

theorem percent_mem_normalize (text : Text) : '%' ∈ normalize text ↔ '%' ∈ text := by
  simp [normalize, arithmeticSymbol_percent]

theorem arithmeticSymbol_literalChar (c : Char) (inside : isLiteralChar c = true) :
    arithmeticSymbol c = c := by
  have others : ∀ x : Char, isLiteralChar x = false → c ≠ x := by
    rintro x outside rfl
    rw [inside] at outside
    cases outside
  simp [arithmeticSymbol, others 'x' (by decide), others 'X' (by decide),
    others '×' (by decide), others '÷' (by decide)]

theorem normalize_append (front text : Text) :
    normalize (front ++ text) = normalize front ++ normalize text := by
  simp [normalize]

theorem normalize_kept (text : Text) (inside : ∀ c ∈ text, isLiteralChar c = true) :
    normalize text = text := by
  have kept : ∀ c ∈ text, arithmeticSymbol c = c :=
    fun c member => arithmeticSymbol_literalChar c (inside c member)
  rw [normalize, List.map_congr_left kept, List.map_id']

/-- No character of a number is a glyph that stands for another symbol. -/
theorem normalize_literal (text : Text) (isLiteral : IsLiteral text) : normalize text = text :=
  normalize_kept text (isLiteralChar_of_mem text isLiteral)

theorem display_cases (v : Double) :
    (∃ shown, display v = .ok shown) ∨ display v = .error .notFinite := by
  cases v with
  | nan => exact Or.inr rfl
  | infinity negative => exact Or.inr rfl
  | finite x => exact Or.inl ⟨_, rfl⟩

theorem display_isOk_iff (v : Double) : (∃ shown, display v = .ok shown) ↔ ∃ x, v = .finite x := by
  cases v <;> simp [display]

theorem evaluate_blank (text : Text) (blank : ∀ c ∈ text, isBlank c = true) :
    evaluate text = .error .empty := by
  rw [evaluate, if_pos (List.all_eq_true.mpr blank)]

theorem not_blank_of_solid (text : Text) (solid : ∃ c ∈ normalize text, isBlank c = false) :
    ¬ text.all isBlank = true := by
  rcases solid with ⟨c, member, solid⟩
  rw [List.all_eq_true, ← blank_of_normalize]
  intro blank
  rw [blank c member] at solid
  cases solid

/-- A text with something in it is shown by the value of what it asks for. -/
theorem evaluate_of_solid (text : Text) (solid : ¬ text.all isBlank = true) :
    evaluate text = (Request.ofText (normalize text)).value.bind display := by
  rw [evaluate, if_neg solid]
  rfl

theorem evaluate_accepted (text : Text) (accepted : Accepted (normalize text)) :
    (∃ shown, evaluate text = .ok shown) ∨ evaluate text = .error .notFinite := by
  have solid := not_blank_of_solid text accepted.has_solid
  rcases request_value_cases (normalize text) with ⟨_, v, value⟩ | ⟨refused, _⟩
  · rw [evaluate_of_solid text solid, value]
    exact display_cases v
  · exact absurd accepted refused

theorem splitPercent?_of_plain (text : Text) (plain : '%' ∉ text) : splitPercent? text = none := by
  cases found : splitPercent? text with
  | none => rfl
  | some sides =>
      rw [splitPercent?_sound text sides.1 sides.2 found] at plain
      exact absurd (by simp) plain

theorem ofText_of_plain (text : Text) (plain : '%' ∉ text) :
    Request.ofText text = .expression text := by
  have unclosed : text.getLast? ≠ some '%' := fun closed => plain (List.mem_of_getLast? closed)
  simp [Request.ofText, Request.remainder?, Request.hundredth?, splitPercent?_of_plain text plain,
    unclosed]

/-- Without a percent sign a text is computed as an expression. -/
theorem evaluate_of_plain (text : Text) (plain : '%' ∉ text) (solid : ¬ text.all isBlank = true) :
    evaluate text = (expressionValue (normalize text)).bind display := by
  rw [evaluate_of_solid text solid, ofText_of_plain _ (mt (percent_mem_normalize text).mp plain)]
  rfl

theorem evaluate_of_isInfix (text : Text) (isInfix : IsInfix (normalize text)) :
    evaluate text = (expressionValue (normalize text)).bind display :=
  evaluate_of_plain text (mt (percent_mem_normalize text).mpr isInfix.no_percent)
    (not_blank_of_solid text isInfix.has_solid)

theorem evaluate_refused (text : Text) (refused : ¬ Accepted (normalize text))
    (solid : ¬ ∀ c ∈ text, isBlank c = true) :
    ∃ cause, evaluate text = .error cause ∧ cause.ofShape = true := by
  rcases request_value_cases (normalize text) with ⟨accepted, _⟩ | ⟨_, cause, failed, ofShape⟩
  · exact absurd accepted refused
  · refine ⟨cause, ?_, ofShape⟩
    rw [evaluate_of_solid text (by simpa using solid), failed]
    rfl

/-- Without a percent sign only an infix expression is accepted. -/
theorem accepted_iff_isInfix (text : Text) (plain : '%' ∉ text) :
    Accepted text ↔ IsInfix text := by
  constructor
  · rintro (⟨left, right, rfl, _⟩ | isInfix | ⟨expression, rfl, _⟩)
    · exact absurd (by simp) plain
    · exact isInfix
    · exact absurd (by simp) plain
  · intro isInfix
    exact Or.inr (Or.inl isInfix)

/-- A text that is not blank has a result, or none because its value is not finite, when it is
accepted. -/
theorem evaluable_iff (text : Text) (solid : ¬ ∀ c ∈ text, isBlank c = true) :
    ((∃ shown, evaluate text = .ok shown) ∨ evaluate text = .error .notFinite) ↔
      Accepted (normalize text) := by
  constructor
  · intro outcome
    by_cases accepted : Accepted (normalize text)
    · exact accepted
    · obtain ⟨cause, failed, ofShape⟩ := evaluate_refused text accepted solid
      rcases outcome with ⟨shown, found⟩ | found
      · rw [failed] at found
        cases found
      · rw [failed] at found
        cases found
        cases ofShape
  · exact evaluate_accepted text

theorem ofShape_cases (cause : EvalError) (ofShape : cause.ofShape = true) :
    (∃ c, cause = .unexpectedChar c) ∨ (∃ text, cause = .malformedNumber text) ∨
      cause = .malformedExpression := by
  cases cause with
  | unexpectedChar c => exact Or.inl ⟨c, rfl⟩
  | malformedNumber text => exact Or.inr (Or.inl ⟨text, rfl⟩)
  | malformedExpression => exact Or.inr (Or.inr rfl)
  | empty => cases ofShape
  | notFinite => cases ofShape

/-- Every text falls into one of three classes, and its outcome tells which: a text that is
accepted once its glyphs are replaced, a blank one, and all the others. -/
theorem evaluate_language_exact (text : Text) :
    ∃ replaced, Replaced text replaced ∧ (∀ other, Replaced text other → other = replaced) ∧
      (((∃ shown, evaluate text = .ok shown) ∨ evaluate text = .error .notFinite) ↔
        Accepted replaced) ∧
      (evaluate text = .error .empty ↔ ∀ c ∈ text, isBlank c = true) ∧
      (((∃ c, evaluate text = .error (.unexpectedChar c)) ∨
          (∃ lexeme, evaluate text = .error (.malformedNumber lexeme)) ∨
          evaluate text = .error .malformedExpression) ↔
        ¬ Accepted replaced ∧ ¬ ∀ c ∈ text, isBlank c = true) := by
  refine ⟨normalize text, (replaced_iff text _).mpr rfl, fun other => (replaced_iff text other).mp,
    ?_⟩
  by_cases blank : ∀ c ∈ text, isBlank c = true
  · have refused : ¬ Accepted (normalize text) := by
      intro accepted
      exact not_blank_of_solid text accepted.has_solid (List.all_eq_true.mpr blank)
    simpa [evaluate_blank text blank, refused] using blank
  · by_cases accepted : Accepted (normalize text)
    · rcases evaluate_accepted text accepted with ⟨shown, outcome⟩ | outcome <;>
        simp [outcome, accepted, blank]
    · rcases evaluate_refused text accepted blank with ⟨cause, outcome, ofShape⟩
      rcases ofShape_cases cause ofShape with ⟨c, rfl⟩ | ⟨lexeme, rfl⟩ | rfl <;>
        simp [outcome, accepted, blank]

-- Every glyph once.
theorem evaluate_language_exact_glyphs :
    let text : Text := ['2', 'x', '3', 'X', '4', '×', '5', '÷', '6']
    let replaced : Text := ['2', '*', '3', '*', '4', '*', '5', '/', '6']
    Replaced text replaced ∧ Accepted replaced ∧
      ((∃ shown, evaluate text = .ok shown) ∨ evaluate text = .error .notFinite) := by
  intro text replaced
  have digit (c : Char) (isDigit : c.isDigit = true) (kept : c ∉ ['x', 'X', '×', '÷']) :
      StandsFor c c ∧ Padded IsLiteral [c] := by
    have inside : ∀ x ∈ [c], x.isDigit = true ∨ x = '.' := by simp [isDigit]
    have points : [c].count '.' ≤ 1 := List.count_le_length
    exact ⟨.other kept, [], [c], [], rfl, List.forall_mem_nil _,
      ⟨[], [c], [], rfl, Or.inl rfl, ⟨inside, points, c, by simp, isDigit⟩, Or.inl rfl⟩,
      List.forall_mem_nil _⟩
  have two := digit '2' rfl (by decide)
  have three := digit '3' rfl (by decide)
  have four := digit '4' rfl (by decide)
  have five := digit '5' rfl (by decide)
  have six := digit '6' rfl (by decide)
  have stands : Replaced text replaced :=
    .cons two.1 (.cons .letter (.cons three.1 (.cons .capital (.cons four.1
      (.cons .cross (.cons five.1 (.cons .obelus (.cons six.1 .nil))))))))
  have isInfix : IsInfix replaced :=
    .operation .multiply two.2 (.operation .multiply three.2 (.operation .multiply four.2
      (.operation .divide five.2 (.operand six.2))))
  obtain ⟨found, _, unique, outcome, _⟩ := evaluate_language_exact text
  have same : replaced = found := unique replaced stands
  exact ⟨stands, Or.inr (Or.inl isInfix), outcome.mpr (same ▸ Or.inr (Or.inl isInfix))⟩

end DeskCalculator
