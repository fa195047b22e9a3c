import DeskCalculator.Proofs.CorrectRounding

/-!
The lexemes of a text. A lexeme is an operator, or a number that is as long as the text behind
it allows, and a sign is part of the number that starts behind it where an operand is due. A
reading of a text is a list of lexemes with blanks in front of each. The scanner takes the one
lexeme that stands at the head of the text; every text has a reading, up to its end or up to
the first characters that are no lexeme, and the scanner finds the tokens of the reading.
-/

namespace DeskCalculator

/-- The run of digits and points in front of an exponent, and the exponent itself, are as long
as the text allows. -/
structure IsLongest (exponent after : Text) : Prop where
  run : StopsSpan isMantissaChar (exponent ++ after)
  exponent : ∀ other rest, IsExponentPart other → exponent ++ after = other ++ rest →
    other.length ≤ exponent.length

/-- A sign or none, digits and points, and an exponent or none, that stand together in front of
`after`. -/
structure IsCut (operandDue : Bool) (sign run exponent after : Text) : Prop where
  signPart : IsSignPart sign
  signDue : sign ≠ [] → operandDue = true
  present : run ≠ []
  inside : ∀ c ∈ run, isMantissaChar c = true
  exponentPart : IsExponentPart exponent
  longest : IsLongest exponent after

/-- The lexemes of a token in front of `after`, given whether the token before is an operator
or absent. -/
inductive IsLexeme (operandDue : Bool) : Token Double → Text → Text → Prop where
  | number {sign mantissa exponent after : Text} {x : Double}
      (cut : IsCut operandDue sign mantissa exponent after) (isMantissa : IsMantissa mantissa)
      (nearest : IsNearest x (sign ++ (mantissa ++ exponent))) :
      IsLexeme operandDue (.number x) (sign ++ (mantissa ++ exponent)) after
  | operator {op : Operation} {after : Text}
      (apart : isSign op.symbol = true → operandDue = true → StopsSpan isMantissaChar after) :
      IsLexeme operandDue (.operator op) [op.symbol] after

/-- A token with its lexeme and the blanks in front of it. -/
structure Lexeme where
  blanks : Text
  text : Text
  token : Token Double

def written : List Lexeme → Text → Text
  | [], rest => rest
  | lexeme :: later, rest => lexeme.blanks ++ (lexeme.text ++ written later rest)

/-- Each lexeme of the list stands between the token before it and the text behind it. -/
inductive IsReading : Bool → List Lexeme → Text → Prop where
  | nil {operandDue : Bool} {rest : Text} : IsReading operandDue [] rest
  | cons {operandDue : Bool} {lexeme : Lexeme} {later : List Lexeme} {rest : Text}
      (blank : ∀ c ∈ lexeme.blanks, isBlank c = true)
      (fits : IsLexeme operandDue lexeme.token lexeme.text (written later rest))
      (others : IsReading lexeme.token.isOperator later rest) :
      IsReading operandDue (lexeme :: later) rest

/-- Whether an operand is due behind the lexemes. -/
def dueBehind (operandDue : Bool) (lexemes : List Lexeme) : Bool :=
  lexemes.foldl (fun _ lexeme => lexeme.token.isOperator) operandDue

/-- A character that stands in no lexeme and is no blank, unless as the mark of an exponent. -/
def IsForeign (c : Char) : Prop :=
  isBlank c = false ∧ c.isDigit = false ∧ c ∉ ['.', '+', '-', '*', '/']

/-- What stands at the head of a text that starts with no lexeme and no blank. -/
inductive IsCulprit (operandDue : Bool) : Text → EvalError → Prop where
  | unexpected {c : Char} {after : Text} (foreign : IsForeign c) :
      IsCulprit operandDue (c :: after) (.unexpectedChar c)
  | malformed {sign run exponent after : Text} (cut : IsCut operandDue sign run exponent after)
      (shapeless : ¬IsMantissa run) :
      IsCulprit operandDue (sign ++ (run ++ (exponent ++ after)))
        (.malformedNumber (sign ++ (run ++ exponent)))

section Cuts

theorem splitExponent_part (text : Text) : IsExponentPart (splitExponent text).1 := by
  cases text with
  | nil => exact Or.inl rfl
  | cons mark rest =>
      simp only [splitExponent]
      split
      · rename_i complete
        simp only [Bool.and_eq_true, Bool.not_eq_true', List.isEmpty_eq_false_iff] at complete
        exact Or.inr ⟨mark, _, _, rfl, isExponentMark_iff.mp complete.1,
          isSignPart_splitSign rest, complete.2, takeWhile_inside _ _⟩
      · exact Or.inl rfl

theorem splitExponent_longest (other rest : Text) (otherPart : IsExponentPart other) :
    other.length ≤ (splitExponent (other ++ rest)).1.length := by
  rcases otherPart with rfl | ⟨mark, sign, digits, rfl, marked, signPart, present, inside⟩
  · exact Nat.zero_le _
  · have signSplit := splitSign_signPart sign (digits ++ rest) signPart
      (stopsSign_digits digits rest present inside)
    have taken : (digits ++ rest).takeWhile Char.isDigit =
        digits ++ rest.takeWhile Char.isDigit := List.takeWhile_append_of_pos inside
    simp [splitExponent, signSplit, taken, present, isExponentMark_iff.mpr marked]

theorem splitExponent_isLongest (text : Text) (stops : StopsSpan isMantissaChar text) :
    IsLongest (splitExponent text).1 (splitExponent text).2 where
  run := by rwa [splitExponent_append]
  exponent := by
    intro other rest otherPart same
    rw [splitExponent_append] at same
    rw [same]
    exact splitExponent_longest other rest otherPart

theorem splitExponent_of_longest (exponent after : Text) (part : IsExponentPart exponent)
    (longest : IsLongest exponent after) :
    splitExponent (exponent ++ after) = (exponent, after) := by
  have parts := splitExponent_append (exponent ++ after)
  have least := splitExponent_longest exponent after part
  have most := longest.exponent _ _ (splitExponent_part (exponent ++ after)) parts.symm
  obtain ⟨first, second⟩ := List.append_inj parts (Nat.le_antisymm most least)
  exact Prod.ext first second

variable {operandDue : Bool} {sign run exponent after : Text}

theorem IsCut.scanned (cut : IsCut operandDue sign run exponent after) :
    ∃ first rest, sign ++ (run ++ (exponent ++ after)) = first :: rest ∧
      isBlank first = false ∧ startsNumber operandDue first rest = true ∧
      splitNumber first rest = (sign ++ (run ++ exponent), after) := by
  obtain ⟨first, rest, same, solid, starts, split⟩ :=
    splitNumber_cut operandDue sign run exponent after cut.signPart cut.signDue cut.present
      cut.inside cut.longest.run
      (splitExponent_of_longest exponent after cut.exponentPart cut.longest)
  refine ⟨first, rest ++ after, ?_, solid, starts, by rw [split, same]⟩
  rw [← List.cons_append, ← same, List.append_assoc, List.append_assoc]

theorem cut_of_startsNumber (first : Char) (rest : Text)
    (starts : startsNumber operandDue first rest = true) :
    ∃ sign run exponent, (splitNumber first rest).1 = sign ++ (run ++ exponent) ∧
      IsCut operandDue sign run exponent (splitNumber first rest).2 := by
  have exponentPart := splitExponent_part (rest.dropWhile isMantissaChar)
  have longest := splitExponent_isLongest _ (stopsSpan_dropWhile isMantissaChar rest)
  have inside := takeWhile_inside isMantissaChar rest
  by_cases head : isMantissaChar first = true
  · refine ⟨[], first :: rest.takeWhile isMantissaChar, _, rfl, Or.inl rfl, by simp, by simp,
      ?_, exponentPart, longest⟩
    intro c member
    rcases List.mem_cons.mp member with rfl | later
    · exact head
    · exact inside c later
  · simp only [startsNumber, head, Bool.false_or, Bool.and_eq_true] at starts
    obtain ⟨⟨due, signed⟩, next⟩ := starts
    refine ⟨[first], rest.takeWhile isMantissaChar, _, rfl, ?_, fun _ => due, ?_, inside,
      exponentPart, longest⟩
    · rcases isSign_iff.mp signed with rfl | rfl
      · exact Or.inr (Or.inl rfl)
      · exact Or.inr (Or.inr rfl)
    · cases rest with
      | nil => cases next
      | cons c rest =>
          simp only [List.head?_cons, Option.any_some] at next
          simp [next]

theorem IsCut.isLiteral (cut : IsCut operandDue sign run exponent after)
    (isMantissa : IsMantissa run) : IsLiteral (sign ++ (run ++ exponent)) :=
  ⟨sign, run, exponent, rfl, cut.signPart, isMantissa, cut.exponentPart⟩

theorem IsCut.isMantissa (cut : IsCut operandDue sign run exponent after)
    (isLiteral : IsLiteral (sign ++ (run ++ exponent))) : IsMantissa run := by
  obtain ⟨otherSign, mantissa, otherExponent, same, otherSignPart, isMantissa,
    otherExponentPart⟩ := isLiteral
  have signs := congrArg splitSign same
  rw [splitSign_signPart sign _ cut.signPart (stopsSign_run run _ cut.present cut.inside),
    splitSign_signPart otherSign _ otherSignPart
      (stopsSign_mantissa mantissa otherExponent isMantissa), Prod.mk.injEq] at signs
  have runs := congrArg (List.takeWhile isMantissaChar) signs.2
  rw [takeWhile_span _ run _ cut.inside (stopsMantissa_exponentPart exponent cut.exponentPart),
    takeWhile_span _ mantissa _ (mantissa_inside mantissa isMantissa)
      (stopsMantissa_exponentPart otherExponent otherExponentPart)] at runs
  rwa [runs]

theorem IsCut.read (cut : IsCut operandDue sign run exponent after) (isMantissa : IsMantissa run)
    {x : Double} (nearest : IsNearest x (sign ++ (run ++ exponent))) :
    ∃ d : Decimal, Decimal.ofText? (sign ++ (run ++ exponent)) = some d ∧ x = d.nearest := by
  obtain ⟨d, read⟩ := Option.isSome_iff_exists.mp
    ((ofText?_isSome_iff _).mpr (cut.isLiteral isMantissa))
  exact ⟨d, read, (isNearest_iff _ d read x).mp nearest⟩

end Cuts

def nextLexeme? (operandDue : Bool) (first : Char) (rest : Text) :
    Option (Token Double × Text × Text) :=
  if startsNumber operandDue first rest then
    (Decimal.ofText? (splitNumber first rest).1).map fun d =>
      (.number d.nearest, splitNumber first rest)
  else (Operation.ofSymbol? first).map fun op => (.operator op, [first], rest)

theorem nextLexeme?_cases {operandDue : Bool} {first : Char} {rest : Text}
    {token : Token Double} {lexeme after : Text}
    (next : nextLexeme? operandDue first rest = some (token, lexeme, after)) :
    (startsNumber operandDue first rest = true ∧ splitNumber first rest = (lexeme, after) ∧
      ∃ d : Decimal, Decimal.ofText? lexeme = some d ∧ token = .number d.nearest) ∨
    (startsNumber operandDue first rest = false ∧ [first] = lexeme ∧ rest = after ∧
      ∃ op, Operation.ofSymbol? first = some op ∧ token = .operator op) := by
  cases starts : startsNumber operandDue first rest with
  | true =>
      rw [nextLexeme?, if_pos starts] at next
      obtain ⟨d, read, same⟩ := Option.map_eq_some_iff.mp next
      obtain ⟨rfl, parts⟩ := Prod.mk.inj same
      rw [parts] at read
      exact Or.inl ⟨rfl, parts, d, read, rfl⟩
  | false =>
      rw [nextLexeme?, if_neg (by simp [starts])] at next
      obtain ⟨op, symbol, same⟩ := Option.map_eq_some_iff.mp next
      obtain ⟨rfl, parts⟩ := Prod.mk.inj same
      obtain ⟨rfl, rfl⟩ := Prod.mk.inj parts
      exact Or.inr ⟨rfl, rfl, rfl, op, symbol, rfl⟩

theorem tokensFrom_next (operandDue : Bool) (first : Char) (rest : Text)
    (solid : isBlank first = false) (token : Token Double) (lexeme after : Text)
    (next : nextLexeme? operandDue first rest = some (token, lexeme, after)) :
    tokensFrom operandDue (first :: rest) =
      (token :: ·) <$> tokensFrom token.isOperator after := by
  rw [tokensFrom, if_neg (by simp [solid])]
  rcases nextLexeme?_cases next with
    ⟨starts, parts, d, read, rfl⟩ | ⟨starts, rfl, rfl, op, symbol, rfl⟩
  · rw [if_pos starts, parts, read]
    rfl
  · rw [if_neg (by simp [starts]), symbol]
    rfl

theorem startsNumber_symbol (operandDue : Bool) (op : Operation) (after : Text)
    (apart : isSign op.symbol = true → operandDue = true → StopsSpan isMantissaChar after) :
    startsNumber operandDue op.symbol after = false := by
  have outside : isMantissaChar op.symbol = false := by cases op <;> rfl
  cases operandDue with
  | false => simp [startsNumber, outside]
  | true =>
      cases signed : isSign op.symbol with
      | false => simp [startsNumber, outside, signed]
      | true =>
          have stops := apart signed rfl
          cases after with
          | nil => simp [startsNumber, outside]
          | cons c after =>
              simp [startsNumber, outside, (stopsSpan_cons _ _ _).mp stops]

section Steps

variable {operandDue : Bool} {token : Token Double} {lexeme after : Text}

theorem IsLexeme.next (isLexeme : IsLexeme operandDue token lexeme after) :
    ∃ first rest, lexeme ++ after = first :: rest ∧ isBlank first = false ∧
      nextLexeme? operandDue first rest = some (token, lexeme, after) := by
  cases isLexeme with
  | @number sign mantissa exponent _ x cut isMantissa nearest =>
      obtain ⟨first, rest, split, solid, starts, cutOut⟩ := cut.scanned
      obtain ⟨d, read, rfl⟩ := cut.read isMantissa nearest
      refine ⟨first, rest, by simpa using split, solid, ?_⟩
      rw [nextLexeme?, if_pos starts, cutOut, read]
      rfl
  | @operator op _ apart =>
      have starts := startsNumber_symbol operandDue op after apart
      refine ⟨op.symbol, after, rfl, symbol_not_blank op, ?_⟩
      rw [nextLexeme?, if_neg (by simp [starts]), Operation.ofSymbol?_symbol]
      rfl

theorem IsLexeme.solid (isLexeme : IsLexeme operandDue token lexeme after) :
    ∀ c ∈ lexeme, isBlank c = false := by
  cases isLexeme with
  | number cut isMantissa _ =>
      intro c member
      exact isBlank_eq_false_of_isLiteralChar c
        (isLiteralChar_of_mem _ (cut.isLiteral isMantissa) c member)
  | @operator op _ _ =>
      intro c member
      rw [List.mem_singleton.mp member]
      exact symbol_not_blank op

theorem IsLexeme.starts (isLexeme : IsLexeme operandDue token lexeme after) :
    ∃ first behind, lexeme = first :: behind ∧ isExponentMark first = false := by
  cases isLexeme with
  | @operator op _ _ => exact ⟨op.symbol, [], rfl, by cases op <;> rfl⟩
  | @number sign mantissa exponent _ _ cut _ _ =>
      rcases cut.signPart with rfl | rfl | rfl
      · cases mantissa with
        | nil => exact absurd rfl cut.present
        | cons first front =>
            exact ⟨first, front ++ exponent, rfl,
              isExponentMark_eq_false_of_mantissa (cut.inside first List.mem_cons_self)⟩
      · exact ⟨'+', mantissa ++ exponent, rfl, rfl⟩
      · exact ⟨'-', mantissa ++ exponent, rfl, rfl⟩

theorem isLexeme_of_next (first : Char) (rest : Text)
    (next : nextLexeme? operandDue first rest = some (token, lexeme, after)) :
    first :: rest = lexeme ++ after ∧ IsLexeme operandDue token lexeme after := by
  rcases nextLexeme?_cases next with
    ⟨starts, parts, d, read, rfl⟩ | ⟨starts, rfl, rfl, op, symbol, rfl⟩
  · have split := splitNumber_append first rest
    obtain ⟨sign, run, exponent, same, cut⟩ := cut_of_startsNumber first rest starts
    rw [parts] at split same cut
    obtain rfl : lexeme = sign ++ (run ++ exponent) := same
    have isMantissa := cut.isMantissa ((ofText?_isSome_iff _).mp (by simp [read]))
    exact ⟨split.symm, .number cut isMantissa ((isNearest_iff _ d read _).mpr rfl)⟩
  · obtain rfl := Operation.ofSymbol?_eq_some first op symbol
    refine ⟨rfl, .operator fun signed due => ?_⟩
    intro c found
    simp only [startsNumber, signed, due, Bool.and_self, Bool.true_and, Bool.or_eq_false_iff,
      Option.mem_def.mp found, Option.any_some] at starts
    exact starts.2

theorem isForeign_iff (c : Char) : IsForeign c ↔
    isBlank c = false ∧ isMantissaChar c = false ∧ Operation.ofSymbol? c = none := by
  constructor
  · rintro ⟨solid, digit, outside⟩
    simp only [List.mem_cons, List.not_mem_nil, or_false, not_or] at outside
    refine ⟨solid, by simp [isMantissaChar, digit, outside], ?_⟩
    simp [Operation.ofSymbol?, Operation.all, Operation.symbol, outside, eq_comm]
  · rintro ⟨solid, outside, unknown⟩
    refine ⟨solid, ?_, ?_⟩
    · cases digit : c.isDigit with
      | false => rfl
      | true => simp [isMantissaChar, digit] at outside
    · intro member
      simp only [List.mem_cons, List.not_mem_nil, or_false] at member
      rcases member with rfl | rfl | rfl | rfl | rfl
      · cases outside
      all_goals cases unknown

theorem IsForeign.unsigned {c : Char} (foreign : IsForeign c) : isSign c = false := by
  cases signed : isSign c with
  | false => rfl
  | true => rcases isSign_iff.mp signed with rfl | rfl <;> exact absurd foreign.2.2 (by simp)

theorem culprit_of_next (first : Char) (rest : Text) (solid : isBlank first = false)
    (nothing : nextLexeme? operandDue first rest = none) :
    ∃ cause, IsCulprit operandDue (first :: rest) cause := by
  cases starts : startsNumber operandDue first rest with
  | true =>
      rw [nextLexeme?, if_pos starts, Option.map_eq_none_iff] at nothing
      obtain ⟨sign, run, exponent, same, cut⟩ := cut_of_startsNumber first rest starts
      have split := splitNumber_append first rest
      rw [same] at split nothing
      refine ⟨.malformedNumber (sign ++ (run ++ exponent)), ?_⟩
      rw [← split, List.append_assoc, List.append_assoc]
      refine .malformed cut fun isMantissa => ?_
      have read := (ofText?_isSome_iff _).mpr (cut.isLiteral isMantissa)
      rw [nothing] at read
      cases read
  | false =>
      rw [nextLexeme?, if_neg (by simp [starts]), Option.map_eq_none_iff] at nothing
      simp only [startsNumber, Bool.or_eq_false_iff] at starts
      exact ⟨.unexpectedChar first, .unexpected
        ((isForeign_iff first).mpr ⟨solid, starts.1, nothing⟩)⟩

theorem tokensFrom_culprit (text : Text) (cause : EvalError)
    (culprit : IsCulprit operandDue text cause) :
    tokensFrom operandDue text = .error cause := by
  cases culprit with
  | @unexpected c after foreign =>
      obtain ⟨solid, outside, unknown⟩ := (isForeign_iff c).mp foreign
      rw [tokensFrom, if_neg (by simp [solid]),
        if_neg (by simp [startsNumber, outside, foreign.unsigned]), unknown]
  | @malformed sign run exponent after cut shapeless =>
      obtain ⟨first, rest, split, solid, starts, cutOut⟩ := cut.scanned
      have unread : Decimal.ofText? (sign ++ (run ++ exponent)) = none := by
        rw [← Option.not_isSome_iff_eq_none, ofText?_isSome_iff]
        exact fun isLiteral => shapeless (cut.isMantissa isLiteral)
      rw [split, tokensFrom, if_neg (by simp [solid]), if_pos starts, cutOut, unread]

end Steps

theorem written_append (lexemes : List Lexeme) (rest after : Text) :
    written lexemes (rest ++ after) = written lexemes rest ++ after := by
  induction lexemes with
  | nil => rfl
  | cons lexeme later ih => simp [written, ih]

/-- The scanner goes through a reading, lexeme by lexeme, to the text behind it. -/
theorem tokensFrom_written {operandDue : Bool} {lexemes : List Lexeme} {rest : Text}
    (reading : IsReading operandDue lexemes rest) :
    tokensFrom operandDue (written lexemes rest) =
      (lexemes.map Lexeme.token ++ ·) <$> tokensFrom (dueBehind operandDue lexemes) rest := by
  induction reading with
  | @nil operandDue rest =>
      change tokensFrom operandDue rest = (fun found => found) <$> tokensFrom operandDue rest
      exact (id_map _).symm
  | @cons operandDue lexeme later rest blank fits _ ih =>
      obtain ⟨first, behind, split, solid, next⟩ := fits.next
      rw [written, tokensFrom_blanks operandDue _ _ blank, split,
        tokensFrom_next operandDue first behind solid _ _ _ next, ih]
      change _ = (fun found => lexeme.token :: (later.map Lexeme.token ++ found)) <$>
        tokensFrom (dueBehind lexeme.token.isOperator later) rest
      cases tokensFrom (dueBehind lexeme.token.isOperator later) rest <;> rfl

/-- Every text is read up to its end or up to a culprit. -/
theorem reading_exists (operandDue : Bool) (text : Text) :
    ∃ lexemes blanks rest, text = written lexemes (blanks ++ rest) ∧
      IsReading operandDue lexemes (blanks ++ rest) ∧ (∀ c ∈ blanks, isBlank c = true) ∧
      (rest = [] ∨ ∃ cause, IsCulprit (dueBehind operandDue lexemes) rest cause) := by
  -- The recursion is the scanner's: one blank less, or one lexeme less.
  induction length : text.length using Nat.strong_induction_on generalizing operandDue text with
  | _ count ih =>
    cases text with
    | nil => exact ⟨[], [], [], rfl, .nil, by simp, Or.inl rfl⟩
    | cons first tail =>
        subst length
        cases solid : isBlank first with
        | true =>
            obtain ⟨lexemes, blanks, rest, rfl, reading, blank, ending⟩ :=
              ih tail.length (by simp) operandDue tail rfl
            cases reading with
            | nil =>
                refine ⟨[], first :: blanks, rest, rfl, .nil, ?_, ending⟩
                simpa [solid] using blank
            | @cons _ lexeme later _ before fits others =>
                refine ⟨{ lexeme with blanks := first :: lexeme.blanks } :: later, blanks, rest,
                  rfl, .cons ?_ fits others, blank, ending⟩
                simpa [solid] using before
        | false =>
            cases next : nextLexeme? operandDue first tail with
            | none =>
                exact ⟨[], [], first :: tail, rfl, .nil, by simp,
                  Or.inr (culprit_of_next first tail solid next)⟩
            | some found =>
                obtain ⟨token, lexeme, after⟩ := found
                obtain ⟨split, isLexeme⟩ := isLexeme_of_next first tail next
                have shorter : after.length < (first :: tail).length := by
                  obtain ⟨_, _, rfl, _⟩ := isLexeme.starts
                  rw [split, List.length_append, List.length_cons]
                  omega
                obtain ⟨lexemes, blanks, rest, rfl, reading, blank, ending⟩ :=
                  ih after.length shorter token.isOperator after rfl
                exact ⟨⟨[], lexeme, token⟩ :: lexemes, blanks, rest, split,
                  .cons (by simp) isLexeme reading, blank, ending⟩

theorem tokensFrom_of_blank (operandDue : Bool) (text : Text)
    (blank : ∀ c ∈ text, isBlank c = true) : tokensFrom operandDue text = .ok [] := by
  have nothing := tokensFrom_blanks operandDue text [] blank
  rwa [List.append_nil, tokensFrom] at nothing

/-- The lexemes are a reading of the whole text, with nothing but blanks behind them. -/
structure Reads (text : Text) (lexemes : List Lexeme) (trailing : Text) : Prop where
  split : text = written lexemes trailing
  reading : IsReading true lexemes trailing
  blank : ∀ c ∈ trailing, isBlank c = true

theorem Reads.tokens_eq {text trailing : Text} {lexemes : List Lexeme}
    (reads : Reads text lexemes trailing) : tokens text = .ok (lexemes.map Lexeme.token) := by
  rw [tokens, reads.split, tokensFrom_written reads.reading, tokensFrom_of_blank _ _ reads.blank]
  exact congrArg Except.ok (List.append_nil _)

theorem tokens_culprit {lexemes : List Lexeme} {blanks rest : Text} {cause : EvalError}
    (reading : IsReading true lexemes (blanks ++ rest)) (blank : ∀ c ∈ blanks, isBlank c = true)
    (culprit : IsCulprit (dueBehind true lexemes) rest cause) :
    tokens (written lexemes (blanks ++ rest)) = .error cause := by
  rw [tokens, tokensFrom_written reading, tokensFrom_blanks _ blanks rest blank,
    tokensFrom_culprit rest cause culprit]
  rfl

theorem culprit_of_error (text : Text) (cause : EvalError) (stopped : tokens text = .error cause) :
    ∃ lexemes blanks rest, text = written lexemes (blanks ++ rest) ∧
      IsReading true lexemes (blanks ++ rest) ∧ (∀ c ∈ blanks, isBlank c = true) ∧
      IsCulprit (dueBehind true lexemes) rest cause := by
  obtain ⟨lexemes, blanks, rest, rfl, reading, blank, ending⟩ := reading_exists true text
  refine ⟨lexemes, blanks, rest, rfl, reading, blank, ?_⟩
  rcases ending with rfl | ⟨other, culprit⟩
  · rw [List.append_nil] at stopped reading
    rw [(Reads.mk rfl reading blank).tokens_eq] at stopped
    cases stopped
  · rw [tokens_culprit reading blank culprit] at stopped
    cases stopped
    exact culprit

theorem tokens_ok_iff (text : Text) (found : List (Token Double)) :
    tokens text = .ok found ↔
      ∃ lexemes trailing, Reads text lexemes trailing ∧ lexemes.map Lexeme.token = found := by
  constructor
  · intro read
    obtain ⟨lexemes, blanks, rest, rfl, reading, blank, ending⟩ := reading_exists true text
    rcases ending with rfl | ⟨cause, culprit⟩
    · rw [List.append_nil] at read reading ⊢
      have reads : Reads (written lexemes blanks) lexemes blanks := ⟨rfl, reading, blank⟩
      rw [reads.tokens_eq] at read
      exact ⟨lexemes, blanks, reads, Except.ok.inj read⟩
    · rw [tokens_culprit reading blank culprit] at read
      cases read
  · rintro ⟨lexemes, trailing, reads, rfl⟩
    exact reads.tokens_eq

end DeskCalculator
