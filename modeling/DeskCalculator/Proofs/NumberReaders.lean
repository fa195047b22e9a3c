import DeskCalculator.Proofs.Lexemes

/-!
The two readers of a number. Around a percent sign a text is read as one number with the blanks
around it cut off; elsewhere the scanner reads it, and the text is one number when that is its
only token. Both accept the same texts, with the same value. A reader of numbers that knows the
words for an infinity and for no number is no wider than the first one, once it refuses letters
other than the marks of an exponent and keeps the finite values only.
-/

namespace DeskCalculator

/-- The value of a word with a sign or without one, in letters of either case. -/
def wordValue? (text : Text) : Option Double :=
  let sign := (splitSign text).1
  let word := (splitSign text).2.map Char.toLower
  if word = ['i', 'n', 'f'] ∨ word = ['i', 'n', 'f', 'i', 'n', 'i', 't', 'y'] then
    some (.infinity (sign = ['-']))
  else if word = ['n', 'a', 'n'] then some .nan
  else none

def wordOrNumber? (text : Text) : Option Double :=
  ((Decimal.ofText? text).map Decimal.nearest).or (wordValue? text)

/-- The finite number that a text without letters writes, the marks of an exponent and the blanks
around the text aside. -/
def screenedNumber? (isLetter : Char → Bool) (text : Text) : Option (FiniteNumber .double) :=
  if (trim text).any fun c => isLetter c && !isExponentMark c then none
  else (wordOrNumber? (trim text)).bind Number.toFinite?

theorem toFinite?_wordValue? (text : Text) : (wordValue? text).bind Number.toFinite? = none := by
  rw [wordValue?]
  split
  · rfl
  · split <;> rfl

theorem ofText?_of_letter (isLetter : Char → Bool)
    (apart : ∀ c, isLetter c = true → isMantissaChar c = false ∧ isSign c = false)
    (text : Text) (lettered : (text.any fun c => isLetter c && !isExponentMark c) = true) :
    Decimal.ofText? text = none := by
  obtain ⟨c, member, letter⟩ := List.any_eq_true.mp lettered
  simp only [Bool.and_eq_true, Bool.not_eq_true'] at letter
  obtain ⟨outside, unsigned⟩ := apart c letter.1
  rw [← Option.not_isSome_iff_eq_none, ofText?_isSome_iff]
  intro isLiteral
  have inside := isLiteralChar_of_mem text isLiteral c member
  simp [isLiteralChar, outside, unsigned, letter.2] at inside

theorem screenedNumber?_eq (isLetter : Char → Bool)
    (apart : ∀ c, isLetter c = true → isMantissaChar c = false ∧ isSign c = false)
    (text : Text) : screenedNumber? isLetter text = simpleNumber? text := by
  rw [screenedNumber?, simpleNumber?]
  split
  · rename_i lettered
    rw [ofText?_of_letter isLetter apart _ lettered]
    rfl
  · rw [wordOrNumber?]
    cases Decimal.ofText? (trim text) with
    | none => exact toFinite?_wordValue? (trim text)
    | some d => rfl

theorem IsLexeme.nearest {operandDue : Bool} {x : Double} {literal after : Text}
    (isLexeme : IsLexeme operandDue (.number x) literal after) : IsNearest x literal := by
  cases isLexeme with
  | number _ _ nearest => exact nearest

theorem simpleNumber?_eq_some_iff (text : Text) (x : FiniteNumber .double) :
    simpleNumber? text = some x ↔ tokens text = .ok [.number (.finite x)] := by
  constructor
  · intro found
    obtain ⟨before, literal, after, rfl, blankBefore, nearest, blankAfter⟩ :=
      (simpleNumber?_iff_padded text x).mp found
    obtain ⟨d, read, value⟩ := (isNearest_iff_read _ literal).mp nearest
    have ends : EndsLiteral after :=
      endsLiteral_of_head after fun c head => Or.inl (blankAfter c (List.mem_of_mem_head? head))
    rw [tokens, tokensFrom_blanks true before _ blankBefore,
      tokensFrom_literal literal after d read ends, tokensFrom_of_blank false after blankAfter,
      value]
    rfl
  · intro found
    obtain ⟨lexemes, trailing, reads, same⟩ := (tokens_ok_iff text _).mp found
    obtain ⟨⟨blanks, literal, token⟩, rfl, rfl⟩ := List.map_eq_singleton_iff.mp same
    obtain ⟨rfl, reading, blankAfter⟩ := reads
    cases reading with
    | cons blankBefore fits _ =>
        exact (simpleNumber?_iff_padded _ x).mpr
          ⟨blanks, literal, trailing, rfl, blankBefore, fits.nearest, blankAfter⟩

/-- The readers agree: on what is a finite number and on its value. A reader that knows words for
numbers as well agrees with them when it takes no letters but the marks of an exponent. -/
theorem number_readers_agree (text : Text) :
    (∀ v : Double, (simpleNumber? text).map Number.finite = some v ↔
      (∃ x, v = .finite x) ∧ tokens text = .ok [.number v]) ∧
    ∀ isLetter : Char → Bool,
      (∀ c, isLetter c = true → isMantissaChar c = false ∧ isSign c = false) →
      screenedNumber? isLetter text = simpleNumber? text := by
  refine ⟨fun v => ?_, fun isLetter apart => screenedNumber?_eq isLetter apart text⟩
  rw [Option.map_eq_some_iff]
  constructor
  · rintro ⟨x, found, rfl⟩
    exact ⟨⟨x, rfl⟩, (simpleNumber?_eq_some_iff text x).mp found⟩
  · rintro ⟨⟨x, rfl⟩, found⟩
    exact ⟨x, (simpleNumber?_eq_some_iff text x).mpr found, rfl⟩

theorem isAlpha_apart (c : Char) (letter : c.isAlpha = true) :
    isMantissaChar c = false ∧ isSign c = false := by
  constructor
  · cases inside : isMantissaChar c with
    | false => rfl
    | true =>
        rcases isMantissaChar_iff.mp inside with digit | rfl
        · have low : c.val ≤ 57 := of_decide_eq_true ((Bool.and_eq_true_iff.mp digit).2)
          have high : 65 ≤ c.val := by
            rcases Bool.or_eq_true_iff.mp letter with upper | lower
            · exact (of_decide_eq_true upper).1
            · have above : 97 ≤ c.val := of_decide_eq_true (Bool.and_eq_true_iff.mp lower).1
              exact UInt32.le_trans (by decide) above
          exact absurd (UInt32.le_trans high low) (by decide)
        · cases letter
  · cases signed : isSign c with
    | false => rfl
    | true => rcases isSign_iff.mp signed with rfl | rfl <;> cases letter

-- A zero between blanks keeps its sign in both readers, and the letters of the Latin alphabet are
-- letters of the third.
theorem number_readers_agree_zero :
    let text : Text := [' ', '-', '.', '0', 'E', '1', '\t']
    let zero : FiniteNumber .double := ⟨true, 0, by decide⟩
    tokens text = .ok [.number (.finite zero)] ∧
      screenedNumber? Char.isAlpha text = some zero ∧
      screenedNumber? Char.isAlpha ['-', 'I', 'n', 'f'] = none := by
  intro text zero
  obtain ⟨agree, screened⟩ := number_readers_agree text
  have read : simpleNumber? text = some zero := rfl
  refine ⟨((agree (.finite zero)).mp (by rw [read]; rfl)).2, ?_, ?_⟩
  · rw [screened Char.isAlpha isAlpha_apart, read]
  · rw [(number_readers_agree ['-', 'I', 'n', 'f']).2 Char.isAlpha isAlpha_apart]
    rfl

end DeskCalculator
