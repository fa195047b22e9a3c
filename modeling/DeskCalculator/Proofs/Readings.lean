import DeskCalculator.Proofs.Lexemes
import Mathlib.Data.List.Forall2

/-!
The readings of a text. A text has at most one, so its lexemes are those the scanner finds and
no others. What stands behind a lexeme matters only where it could be more of the lexeme;
therefore blanks that are put in, or replaced by others, leave every lexeme as it is, and so
does a text behind the last one that cannot continue it.
-/

namespace DeskCalculator

section Unique

variable {operandDue : Bool} {token other : Token Double} {lexeme text after behind : Text}

theorem IsLexeme.unique (first : IsLexeme operandDue token lexeme after)
    (second : IsLexeme operandDue other text behind) (same : lexeme ++ after = text ++ behind) :
    token = other ∧ lexeme = text ∧ after = behind := by
  obtain ⟨head, rest, split, _, next⟩ := first.next
  obtain ⟨otherHead, otherRest, otherSplit, _, otherNext⟩ := second.next
  rw [split, otherSplit] at same
  obtain ⟨rfl, rfl⟩ := List.cons.inj same
  rw [next] at otherNext
  simpa using otherNext

/-- The token of a lexeme, which depends on nothing around it. -/
def tokenOf? (lexeme : Text) : Option (Token Double) :=
  ((Decimal.ofText? lexeme).map fun d => .number d.nearest) <|>
    (lexeme.head?.bind Operation.ofSymbol?).map .operator

theorem IsLexeme.tokenOf?_eq (isLexeme : IsLexeme operandDue token lexeme after) :
    tokenOf? lexeme = some token := by
  cases isLexeme with
  | @number sign mantissa exponent _ x cut isMantissa nearest =>
      obtain ⟨d, read, rfl⟩ := cut.read isMantissa nearest
      rw [tokenOf?, read]
      rfl
  | @operator op _ _ => cases op <;> rfl

end Unique

theorem blanks_unique {blanks others rest behind : Text}
    (blank : ∀ c ∈ blanks, isBlank c = true) (otherBlank : ∀ c ∈ others, isBlank c = true)
    (stops : StopsSpan isBlank rest) (otherStops : StopsSpan isBlank behind)
    (same : blanks ++ rest = others ++ behind) : blanks = others ∧ rest = behind := by
  have taken := congrArg (List.takeWhile isBlank) same
  have dropped := congrArg (List.dropWhile isBlank) same
  rw [takeWhile_span _ blanks rest blank stops,
    takeWhile_span _ others behind otherBlank otherStops] at taken
  rw [dropWhile_span _ blanks rest blank stops,
    dropWhile_span _ others behind otherBlank otherStops] at dropped
  exact ⟨taken, dropped⟩

theorem IsLexeme.stopsBlank {operandDue : Bool} {token : Token Double} {lexeme after : Text}
    (isLexeme : IsLexeme operandDue token lexeme after) :
    StopsSpan isBlank (lexeme ++ after) := by
  obtain ⟨_, _, split, solid, _⟩ := isLexeme.next
  rw [split, stopsSpan_cons]
  exact solid

theorem not_blank_written {operandDue : Bool} {lexeme : Lexeme} {later : List Lexeme}
    {rest : Text} (reading : IsReading operandDue (lexeme :: later) rest) :
    ¬∀ c ∈ written (lexeme :: later) rest, isBlank c = true := by
  intro blank
  cases reading with
  | cons _ fits _ =>
      obtain ⟨first, behind, same, _⟩ := fits.starts
      have solid := fits.solid first (by simp [same])
      rw [blank first (by simp [written, same])] at solid
      cases solid

-- The induction is on the first reading. Its next lexeme is the one the other reading has, and
-- with the lexeme the same operand is due behind it.
theorem reading_unique {operandDue : Bool} {lexemes others : List Lexeme}
    {trailing ending : Text} (reading : IsReading operandDue lexemes trailing)
    (otherReading : IsReading operandDue others ending)
    (blank : ∀ c ∈ trailing, isBlank c = true) (otherBlank : ∀ c ∈ ending, isBlank c = true)
    (same : written lexemes trailing = written others ending) :
    lexemes = others ∧ trailing = ending := by
  induction reading generalizing others with
  | nil =>
      cases others with
      | nil => exact ⟨rfl, same⟩
      | cons lexeme later =>
          refine absurd ?_ (not_blank_written otherReading)
          rw [← same]
          exact blank
  | @cons operandDue lexeme later rest before fits reading ih =>
      cases otherReading with
      | nil =>
          refine absurd ?_ (not_blank_written (.cons before fits reading))
          rw [same]
          exact otherBlank
      | @cons _ other more _ otherBefore otherFits otherReading =>
          obtain ⟨blanks, split⟩ :=
            blanks_unique before otherBefore fits.stopsBlank otherFits.stopsBlank same
          obtain ⟨token, text, behind⟩ := fits.unique otherFits split
          rw [← token] at otherReading
          obtain ⟨rfl, rfl⟩ := ih otherReading blank behind
          refine ⟨?_, rfl⟩
          rw [show lexeme = other by cases lexeme; cases other; simp_all]

section Follows

/-- In place of `after` a text behind a lexeme cannot continue it: the text starts as `after`
does, or with no character of a number, or is empty. -/
def Follows (after other : Text) : Prop :=
  ∀ c ∈ other.head?, isLiteralChar c = false ∨ (c ∈ after.head? ∧ isExponentMark c = false)

variable {after other : Text} (follows : Follows after other)

include follows

theorem Follows.stops (p : Char → Bool) (literal : ∀ c, p c = true → isLiteralChar c = true)
    (stops : StopsSpan p after) : StopsSpan p other := by
  intro c found
  rcases follows c found with outside | ⟨before, _⟩
  · cases inside : p c with
    | false => rfl
    | true =>
        rw [literal c inside] at outside
        cases outside
  · exact stops c before

theorem Follows.stopsMantissa (stops : StopsSpan isMantissaChar after) :
    StopsSpan isMantissaChar other :=
  follows.stops isMantissaChar (fun _ => isLiteralChar_of_mantissa) stops

theorem Follows.stopsMark : StopsSpan isExponentMark other := by
  intro c found
  rcases follows c found with outside | ⟨_, unmarked⟩
  · simp only [isLiteralChar, Bool.or_eq_false_iff] at outside
    exact outside.2
  · exact unmarked

omit follows in
theorem IsLongest.stopsDigits {exponent : Text} (longest : IsLongest exponent after)
    (part : IsExponentPart exponent) (present : exponent ≠ []) :
    StopsSpan Char.isDigit after := by
  intro c found
  by_contra digit
  obtain ⟨rest, rfl⟩ := List.head?_eq_some_iff.mp found
  rcases part with rfl | ⟨mark, sign, digits, rfl, marked, signPart, someDigits, inside⟩
  · exact present rfl
  · have longer : IsExponentPart (mark :: (sign ++ (digits ++ [c]))) := by
      refine Or.inr ⟨mark, sign, digits ++ [c], rfl, marked, signPart, by simp, ?_⟩
      intro x member
      rcases List.mem_append.mp member with before | last
      · exact inside x before
      · rw [List.mem_singleton.mp last]
        simpa using digit
    have bound := longest.exponent _ rest longer (by simp)
    simp only [List.length_cons, List.length_append, List.length_nil] at bound
    omega

theorem IsLongest.followed {exponent : Text} (longest : IsLongest exponent after)
    (part : IsExponentPart exponent) : IsLongest exponent other := by
  by_cases absent : exponent = []
  · subst absent
    have longestOther := splitExponent_isLongest other (follows.stopsMantissa longest.run)
    rwa [splitExponent_unmarked other follows.stopsMark] at longestOther
  · have stopsDigits : StopsSpan Char.isDigit other :=
      follows.stops Char.isDigit
        (fun _ digit => isLiteralChar_of_mantissa (isMantissaChar_of_isDigit digit))
        (longest.stopsDigits part absent)
    have stopsRun : StopsSpan isMantissaChar (exponent ++ other) := by
      have stops := stopsMantissa_exponentPart exponent part
      cases exponent with
      | nil => exact absurd rfl absent
      | cons mark behind => exact (stopsSpan_cons _ _ _).mpr ((stopsSpan_cons _ _ _).mp stops)
    have longestOther := splitExponent_isLongest (exponent ++ other) stopsRun
    rwa [splitExponent_complete exponent other part absent stopsDigits] at longestOther

theorem IsLexeme.followed {operandDue : Bool} {token : Token Double} {lexeme : Text}
    (isLexeme : IsLexeme operandDue token lexeme after) :
    IsLexeme operandDue token lexeme other := by
  cases isLexeme with
  | number cut isMantissa nearest =>
      exact .number { cut with longest := cut.longest.followed follows cut.exponentPart }
        isMantissa nearest
  | operator apart =>
      exact .operator fun signed due => follows.stopsMantissa (apart signed due)

end Follows

section Spacing

/-- The same lexeme with other blanks in front of it, and none only where none were. -/
structure Respaced (lexeme other : Lexeme) : Prop where
  text : other.text = lexeme.text
  token : other.token = lexeme.token
  blank : ∀ c ∈ other.blanks, isBlank c = true
  kept : other.blanks = [] → lexeme.blanks = []

theorem follows_of_blank (after : Text) (c : Char) (other : Text) (blank : isBlank c = true) :
    Follows after (c :: other) := by
  intro first found
  cases found
  cases inside : isLiteralChar c with
  | false => exact Or.inl rfl
  | true =>
      rw [isBlank_eq_false_of_isLiteralChar c inside] at blank
      cases blank

theorem follows_of_blanks (after : Text) {blanks : Text} (blank : ∀ c ∈ blanks, isBlank c = true) :
    Follows after blanks := by
  cases blanks with
  | nil => exact fun c found => by cases found
  | cons c behind => exact follows_of_blank after c behind (blank c List.mem_cons_self)

/-- What stands behind a lexeme still cannot continue it when the blanks of the lexemes behind
it are others. -/
theorem follows_written {operandDue : Bool} {lexemes others : List Lexeme} {rest ending : Text}
    (reading : IsReading operandDue lexemes rest) (respaced : List.Forall₂ Respaced lexemes others)
    (follows : Follows rest ending) : Follows (written lexemes rest) (written others ending) := by
  cases respaced with
  | nil => exact follows
  | @cons lexeme other later more same _ =>
      cases blanks : other.blanks with
      | cons c behind =>
          have blank := same.blank c (by simp [blanks])
          simpa [written, blanks] using follows_of_blank _ c _ blank
      | nil =>
          cases reading with
          | cons _ fits _ =>
              obtain ⟨first, behind, split, unmarked⟩ := fits.starts
              rw [written, written, blanks, same.kept blanks, same.text, split]
              intro c found
              cases found
              exact Or.inr ⟨rfl, unmarked⟩

theorem IsReading.respaced {operandDue : Bool} {lexemes others : List Lexeme}
    {rest ending : Text} (reading : IsReading operandDue lexemes rest)
    (respaced : List.Forall₂ Respaced lexemes others) (follows : Follows rest ending) :
    IsReading operandDue others ending := by
  induction reading generalizing others with
  | nil =>
      cases respaced
      exact .nil
  | @cons operandDue lexeme later rest blank fits reading ih =>
      cases respaced with
      | @cons _ other _ more same later =>
          refine .cons same.blank ?_ ?_
          · rw [same.text, same.token]
            exact fits.followed (follows_written reading later follows)
          · rw [same.token]
            exact ih later follows

theorem respaced_self {operandDue : Bool} {lexemes : List Lexeme} {rest : Text}
    (reading : IsReading operandDue lexemes rest) : List.Forall₂ Respaced lexemes lexemes := by
  induction reading with
  | nil => exact .nil
  | cons blank _ _ ih => exact .cons ⟨rfl, rfl, blank, id⟩ ih

theorem respaced_tokens {lexemes others : List Lexeme}
    (respaced : List.Forall₂ Respaced lexemes others) :
    others.map Lexeme.token = lexemes.map Lexeme.token := by
  induction respaced with
  | nil => rfl
  | cons same _ ih => rw [List.map_cons, List.map_cons, same.token, ih]

theorem filter_blank {blanks : Text} (blank : ∀ c ∈ blanks, isBlank c = true) :
    blanks.filter (fun c => !isBlank c) = [] := by
  rw [List.filter_eq_nil_iff]
  intro c member
  simp [blank c member]

/-- The lexemes are the text without its blanks. -/
theorem filter_written {operandDue : Bool} {lexemes : List Lexeme} {rest : Text}
    (reading : IsReading operandDue lexemes rest) (blank : ∀ c ∈ rest, isBlank c = true) :
    (written lexemes rest).filter (fun c => !isBlank c) = lexemes.flatMap Lexeme.text := by
  induction reading with
  | nil => exact filter_blank blank
  | @cons operandDue lexeme later rest before fits _ ih =>
      have solid : lexeme.text.filter (fun c => !isBlank c) = lexeme.text := by
        rw [List.filter_eq_self]
        intro c member
        simp [fits.solid c member]
      rw [written, List.filter_append, List.filter_append, filter_blank before, solid, ih blank]
      rfl

end Spacing

theorem IsReading.tokenOf?_texts {operandDue : Bool} {lexemes : List Lexeme} {rest : Text}
    (reading : IsReading operandDue lexemes rest) :
    (lexemes.map Lexeme.text).map tokenOf? = (lexemes.map Lexeme.token).map some := by
  induction reading with
  | nil => rfl
  | cons _ fits _ ih => simp only [List.map_cons, ih, fits.tokenOf?_eq]

/-- The tokens are those of the only reading of the text. Its lexemes are the text without the
blanks; they alone determine the tokens, and other blanks between them leave them lexemes. -/
theorem tokens_longest_match (text : Text) :
    (∀ found, tokens text = .ok found ↔
      ∃ lexemes trailing, Reads text lexemes trailing ∧ lexemes.map Lexeme.token = found) ∧
    ∀ lexemes trailing, Reads text lexemes trailing →
      (∀ others ending, Reads text others ending → others = lexemes ∧ ending = trailing) ∧
      text.filter (fun c => !isBlank c) = lexemes.flatMap Lexeme.text ∧
      (∀ another others ending, Reads another others ending →
        others.map Lexeme.text = lexemes.map Lexeme.text → tokens another = tokens text) ∧
      ∀ others ending, List.Forall₂ Respaced lexemes others → (∀ c ∈ ending, isBlank c = true) →
        tokens (written others ending) = tokens text := by
  refine ⟨tokens_ok_iff text, ?_⟩
  intro lexemes trailing reads
  refine ⟨?_, ?_, ?_, ?_⟩
  · intro others ending otherReads
    exact reading_unique otherReads.reading reads.reading otherReads.blank reads.blank
      (otherReads.split.symm.trans reads.split)
  · rw [reads.split]
    exact filter_written reads.reading reads.blank
  · intro another others ending otherReads same
    have tokensSame := congrArg (List.map tokenOf?) same
    rw [otherReads.reading.tokenOf?_texts, reads.reading.tokenOf?_texts] at tokensSame
    have unwrapped := List.map_injective_iff.mpr (Option.some_injective _) tokensSame
    rw [otherReads.tokens_eq, reads.tokens_eq, unwrapped]
  · intro others ending respaced blank
    have otherReads : Reads (written others ending) others ending :=
      ⟨rfl, reads.reading.respaced respaced (follows_of_blanks trailing blank), blank⟩
    rw [otherReads.tokens_eq, reads.tokens_eq, respaced_tokens respaced]

-- The blank in front of the operator is replaced, and blanks are put in at two more places.
theorem tokens_longest_match_product :
    let found : List (Token Double) := [.number (⟨false, 3, 0⟩ : Decimal).nearest,
      .operator .multiply, .number (⟨true, 2, 0⟩ : Decimal).nearest]
    tokens ['3', ' ', '*', '-', '2'] = .ok found ∧
      tokens ['3', '\t', '*', '\n', '-', '2', ' '] = .ok found := by
  intro found
  let lexemes : List Lexeme := [⟨[], ['3'], .number (⟨false, 3, 0⟩ : Decimal).nearest⟩,
    ⟨[' '], ['*'], .operator .multiply⟩, ⟨[], ['-', '2'], .number (⟨true, 2, 0⟩ : Decimal).nearest⟩]
  let others : List Lexeme := [⟨[], ['3'], .number (⟨false, 3, 0⟩ : Decimal).nearest⟩,
    ⟨['\t'], ['*'], .operator .multiply⟩,
    ⟨['\n'], ['-', '2'], .number (⟨true, 2, 0⟩ : Decimal).nearest⟩]
  have three : IsLexeme true (.number (⟨false, 3, 0⟩ : Decimal).nearest) ['3']
      [' ', '*', '-', '2'] := (isLexeme_of_next '3' [' ', '*', '-', '2'] rfl).2
  have product : IsLexeme false (.operator .multiply) ['*'] ['-', '2'] :=
    (isLexeme_of_next '*' ['-', '2'] rfl).2
  have minusTwo : IsLexeme true (.number (⟨true, 2, 0⟩ : Decimal).nearest) ['-', '2'] [] :=
    (isLexeme_of_next '-' ['2'] rfl).2
  have reads : Reads ['3', ' ', '*', '-', '2'] lexemes [] :=
    ⟨rfl, .cons (List.forall_mem_nil _) three (.cons (List.forall_mem_singleton.mpr rfl) product
      (.cons (List.forall_mem_nil _) minusTwo .nil)), List.forall_mem_nil _⟩
  have respaced : List.Forall₂ Respaced lexemes others :=
    .cons ⟨rfl, rfl, List.forall_mem_nil _, fun _ => rfl⟩
      (.cons ⟨rfl, rfl, List.forall_mem_singleton.mpr rfl, by simp⟩
        (.cons ⟨rfl, rfl, List.forall_mem_singleton.mpr rfl, by simp⟩ .nil))
  obtain ⟨exact, unchanged⟩ := tokens_longest_match ['3', ' ', '*', '-', '2']
  have read := (exact found).mpr ⟨lexemes, [], reads, rfl⟩
  refine ⟨read, ?_⟩
  rw [← read]
  exact (unchanged lexemes [] reads).2.2.2 others [' '] respaced
    (List.forall_mem_singleton.mpr rfl)

end DeskCalculator
