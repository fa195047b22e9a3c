import DeskCalculator.Proofs.Readings

/-!
Where the scanner stops. Its error names the first characters of the text that are no lexeme:
what stands in front of them is read in the same way on its own, and a character that belongs
to no lexeme stops the scanner behind any text that it reads.
-/

namespace DeskCalculator

theorem tokens_before {lexemes : List Lexeme} {blanks rest : Text}
    (reading : IsReading true lexemes (blanks ++ rest))
    (blank : ∀ c ∈ blanks, isBlank c = true) :
    tokens (written lexemes blanks) = .ok (lexemes.map Lexeme.token) := by
  have reads : Reads (written lexemes blanks) lexemes blanks :=
    ⟨rfl, reading.respaced (respaced_self reading) (follows_of_blanks _ blank), blank⟩
  exact reads.tokens_eq

theorem dueBehind_eq (lexemes : List Lexeme) : dueBehind true lexemes =
    (lexemes.map Lexeme.token).getLast?.all Token.isOperator := by
  induction lexemes using List.reverseRecOn with
  | nil => rfl
  | append_singleton lexemes last _ => simp [dueBehind]

theorem culprit_behind (text : Text) (cause : EvalError) (stopped : tokens text = .error cause) :
    ∃ before rest found, text = before ++ rest ∧ tokens before = .ok found ∧
      IsCulprit (found.getLast?.all Token.isOperator) rest cause := by
  obtain ⟨lexemes, blanks, rest, rfl, reading, blank, culprit⟩ :=
    culprit_of_error text cause stopped
  rw [dueBehind_eq] at culprit
  exact ⟨written lexemes blanks, rest, _, written_append lexemes blanks rest,
    tokens_before reading blank, culprit⟩

/-- A foreign character stops the scanner behind whatever it reads, unless it may be the mark of
an exponent. -/
theorem tokens_foreign (text : Text) (found : List (Token Double)) (c : Char) (after : Text)
    (read : tokens text = .ok found) (foreign : IsForeign c) (unmarked : isExponentMark c = false) :
    tokens (text ++ c :: after) = .error (.unexpectedChar c) := by
  obtain ⟨lexemes, trailing, ⟨rfl, reading, blank⟩, _⟩ := (tokens_ok_iff text found).mp read
  have follows : Follows trailing (trailing ++ c :: after) := by
    cases trailing with
    | cons first trailing =>
        exact follows_of_blank _ first _ (blank first List.mem_cons_self)
    | nil =>
        obtain ⟨_, outside, _⟩ := (isForeign_iff c).mp foreign
        intro first same
        cases same
        exact Or.inl (by simp [isLiteralChar, outside, foreign.unsigned, unmarked])
  rw [← written_append]
  exact tokens_culprit (reading.respaced (respaced_self reading) follows) blank
    (.unexpected foreign)

theorem shapeless_run (run : Text) (inside : ∀ c ∈ run, isMantissaChar c = true)
    (shapeless : ¬IsMantissa run) : 2 ≤ run.count '.' ∨ ∀ c ∈ run, c.isDigit = false := by
  by_cases points : 2 ≤ run.count '.'
  · exact Or.inl points
  · refine Or.inr fun c member => ?_
    by_contra digit
    have isDigit : c.isDigit = true := by simpa using digit
    exact shapeless
      ⟨fun x there => isMantissaChar_iff.mp (inside x there), by omega, c, member, isDigit⟩

/-- An error is about the first characters that are no lexeme: one that is foreign, or a number
that is cut out whole and has two points or no digit. A foreign character is reported behind
every text that is read. -/
theorem tokens_first_culprit (text : Text) :
    (∀ c, tokens text = .error (.unexpectedChar c) → ∃ before after found,
      text = before ++ c :: after ∧ tokens before = .ok found ∧ IsForeign c) ∧
    (∀ lexeme, tokens text = .error (.malformedNumber lexeme) →
      ∃ before after found sign run exponent, text = before ++ (lexeme ++ after) ∧
        tokens before = .ok found ∧ lexeme = sign ++ (run ++ exponent) ∧
        IsCut (found.getLast?.all Token.isOperator) sign run exponent after ∧
        (2 ≤ run.count '.' ∨ ∀ c ∈ run, c.isDigit = false)) ∧
    (∀ cause, tokens text = .error cause →
      (∃ c, cause = .unexpectedChar c) ∨ ∃ lexeme, cause = .malformedNumber lexeme) ∧
    ∀ found c after, tokens text = .ok found → IsForeign c → isExponentMark c = false →
      tokens (text ++ c :: after) = .error (.unexpectedChar c) := by
  refine ⟨?_, ?_, ?_, tokens_foreign text⟩
  · intro c stopped
    obtain ⟨before, rest, found, rfl, read, culprit⟩ := culprit_behind text _ stopped
    cases culprit with
    | @unexpected _ after foreign => exact ⟨before, after, found, rfl, read, foreign⟩
  · intro lexeme stopped
    obtain ⟨before, rest, found, rfl, read, culprit⟩ := culprit_behind text _ stopped
    cases culprit with
    | @malformed sign run exponent after cut shapeless =>
        exact ⟨before, after, found, sign, run, exponent, by simp, read, rfl, cut,
          shapeless_run run cut.inside shapeless⟩
  · intro cause stopped
    obtain ⟨_, _, _, _, _, culprit⟩ := culprit_behind text cause stopped
    cases culprit with
    | unexpected _ => exact Or.inl ⟨_, rfl⟩
    | malformed _ _ => exact Or.inr ⟨_, rfl⟩

-- A point with a sign and an exponent behind a product, and a percent sign behind a number.
theorem tokens_first_culprit_point :
    let lexeme : Text := ['-', '.', 'e', '7']
    tokens (['2', '*'] ++ lexeme) = .error (.malformedNumber lexeme) ∧
      (∃ before after found, ['2', '*'] ++ lexeme = before ++ (lexeme ++ after) ∧
        tokens before = .ok found) ∧
      tokens ['2', '%', '3'] = .error (.unexpectedChar '%') := by
  intro lexeme
  let two : Lexeme := ⟨[], ['2'], .number (⟨false, 2, 0⟩ : Decimal).nearest⟩
  let product : Lexeme := ⟨[], ['*'], .operator .multiply⟩
  have number (after : Text) (next : nextLexeme? true '2' after = some (two.token, ['2'], after)) :
      IsLexeme true two.token two.text after := (isLexeme_of_next '2' after next).2
  have operator : IsLexeme false product.token product.text lexeme :=
    (isLexeme_of_next '*' lexeme rfl).2
  have cut : IsCut true ['-'] ['.'] ['e', '7'] [] :=
    { signPart := Or.inr (Or.inr rfl)
      signDue := fun _ => rfl
      present := by simp
      inside := List.forall_mem_singleton.mpr rfl
      exponentPart := splitExponent_part ['e', '7']
      longest := splitExponent_isLongest ['e', '7'] ((stopsSpan_cons _ _ _).mpr rfl) }
  have shapeless : ¬IsMantissa ['.'] := by
    rintro ⟨_, _, c, member, digit⟩
    rw [List.mem_singleton.mp member] at digit
    cases digit
  have reading : IsReading true [two, product] ([] ++ lexeme) :=
    .cons (List.forall_mem_nil _) (number _ rfl) (.cons (List.forall_mem_nil _) operator .nil)
  have stopped : tokens (['2', '*'] ++ lexeme) = .error (.malformedNumber lexeme) :=
    tokens_culprit reading (List.forall_mem_nil _) (.malformed cut shapeless)
  have reads : Reads ['2'] [two] [] :=
    ⟨rfl, .cons (List.forall_mem_nil _) (number [] rfl) .nil, List.forall_mem_nil _⟩
  obtain ⟨_, malformed, _, _⟩ := tokens_first_culprit (['2', '*'] ++ lexeme)
  obtain ⟨before, after, found, _, _, _, split, read, _⟩ := malformed lexeme stopped
  obtain ⟨_, _, _, foreign⟩ := tokens_first_culprit ['2']
  exact ⟨stopped, ⟨before, after, found, split, read⟩,
    foreign _ '%' ['3'] reads.tokens_eq ⟨rfl, rfl, by simp⟩ rfl⟩

end DeskCalculator
