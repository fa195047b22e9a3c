import DeskCalculator.Token
import DeskCalculator.Proofs.Lists

/-!
The grammar of a number, said without the reader: a sign or none, digits with at most one
point and at least one digit, and an exponent or none. The reader of a whole text accepts
exactly these texts, and the scanner cuts one off wherever the text after it cannot be read
as more of the same number.
-/

namespace DeskCalculator

def IsSignPart (text : Text) : Prop := text = [] ∨ text = ['+'] ∨ text = ['-']

def IsMantissa (text : Text) : Prop :=
  (∀ c ∈ text, c.isDigit = true ∨ c = '.') ∧ text.count '.' ≤ 1 ∧
    ∃ c ∈ text, c.isDigit = true

def IsExponentPart (text : Text) : Prop :=
  text = [] ∨ ∃ mark sign digits, text = mark :: (sign ++ digits) ∧
    (mark = 'e' ∨ mark = 'E') ∧ IsSignPart sign ∧ digits ≠ [] ∧
    ∀ c ∈ digits, c.isDigit = true

def IsLiteral (text : Text) : Prop :=
  ∃ sign mantissa exponent, text = sign ++ (mantissa ++ exponent) ∧ IsSignPart sign ∧
    IsMantissa mantissa ∧ IsExponentPart exponent

section Characters

variable {c : Char}

theorem isSign_iff : isSign c = true ↔ c = '+' ∨ c = '-' := by simp [isSign]

theorem isExponentMark_iff : isExponentMark c = true ↔ c = 'e' ∨ c = 'E' := by
  simp [isExponentMark]

theorem isMantissaChar_iff : isMantissaChar c = true ↔ c.isDigit = true ∨ c = '.' := by
  simp [isMantissaChar]

theorem isSign_eq_false_of_mantissa (inside : isMantissaChar c = true) :
    isSign c = false := by
  cases signed : isSign c with
  | false => rfl
  | true => rcases isSign_iff.mp signed with rfl | rfl <;> simp [isMantissaChar] at inside

theorem isExponentMark_eq_false_of_mantissa (inside : isMantissaChar c = true) :
    isExponentMark c = false := by
  cases marked : isExponentMark c with
  | false => rfl
  | true =>
      rcases isExponentMark_iff.mp marked with rfl | rfl <;> simp [isMantissaChar] at inside

theorem isMantissaChar_of_isDigit (digit : c.isDigit = true) : isMantissaChar c = true :=
  isMantissaChar_iff.mpr (Or.inl digit)

end Characters

theorem mantissa_inside (text : Text) (isMantissa : IsMantissa text) :
    ∀ c ∈ text, isMantissaChar c = true := by
  intro c member
  exact isMantissaChar_iff.mpr (isMantissa.1 c member)

theorem signPart_inside (sign : Text) (signPart : IsSignPart sign) :
    ∀ c ∈ sign, isSign c = true := by
  intro c member
  rw [isSign_iff]
  rcases signPart with rfl | rfl | rfl
  · cases member
  · exact Or.inl (List.mem_singleton.mp member)
  · exact Or.inr (List.mem_singleton.mp member)

theorem splitSign_signPart (sign rest : Text) (signPart : IsSignPart sign)
    (stops : StopsSpan isSign rest) : splitSign (sign ++ rest) = (sign, rest) := by
  rcases signPart with rfl | rfl | rfl
  · cases rest with
    | nil => rfl
    | cons c rest => simp [splitSign, (stopsSpan_cons isSign c rest).mp stops]
  · rfl
  · rfl

theorem isSignPart_splitSign (text : Text) : IsSignPart (splitSign text).1 := by
  cases text with
  | nil => exact Or.inl rfl
  | cons c rest =>
      by_cases signed : isSign c = true
      · rcases isSign_iff.mp signed with rfl | rfl
        · exact Or.inr (Or.inl rfl)
        · exact Or.inr (Or.inr rfl)
      · simp [splitSign, signed, IsSignPart]

theorem stopsSign_run (run rest : Text) (present : run ≠ [])
    (inside : ∀ c ∈ run, isMantissaChar c = true) : StopsSpan isSign (run ++ rest) := by
  cases run with
  | nil => exact absurd rfl present
  | cons c run =>
      exact (stopsSpan_cons _ _ _).mpr
        (isSign_eq_false_of_mantissa (inside c List.mem_cons_self))

theorem stopsSign_digits (digits rest : Text) (present : digits ≠ [])
    (inside : ∀ c ∈ digits, c.isDigit = true) : StopsSpan isSign (digits ++ rest) :=
  stopsSign_run digits rest present fun c member => isMantissaChar_of_isDigit (inside c member)

theorem exponentValue?_isSome_iff (text : Text) :
    (exponentValue? text).isSome = true ↔ IsExponentPart text := by
  constructor
  · intro accepted
    cases text with
    | nil => exact Or.inl rfl
    | cons mark rest =>
        by_cases complete : (isExponentMark mark && !(splitSign rest).2.isEmpty &&
            (splitSign rest).2.all Char.isDigit) = true
        · simp only [Bool.and_eq_true, Bool.not_eq_true', List.isEmpty_eq_false_iff,
            List.all_eq_true] at complete
          exact Or.inr ⟨mark, (splitSign rest).1, (splitSign rest).2,
            by rw [splitSign_append], isExponentMark_iff.mp complete.1.1,
            isSignPart_splitSign rest, complete.1.2, complete.2⟩
        · simp [exponentValue?, complete] at accepted
  · rintro (rfl | ⟨mark, sign, digits, rfl, marked, signPart, present, inside⟩)
    · rfl
    · have split := splitSign_signPart sign digits signPart
        (by simpa using stopsSign_digits digits [] present inside)
      simp [exponentValue?, split, isExponentMark_iff.mpr marked, present,
        List.all_eq_true.mpr inside]

/-- The point and the digits behind it, when there is a point. -/
def pointPart : Option Text → Text
  | none => []
  | some fraction => '.' :: fraction

theorem mantissa_digits (digits : Text) (inside : ∀ c ∈ digits, c.isDigit = true) :
    digits.count '.' = 0 := by
  rw [List.count_eq_zero]
  intro member
  exact absurd (inside '.' member) (by decide)

theorem isMantissa_parts (whole : Text) (fraction : Option Text)
    (wholeDigits : ∀ c ∈ whole, c.isDigit = true)
    (fractionDigits : ∀ c ∈ fraction.getD [], c.isDigit = true)
    (present : whole ++ fraction.getD [] ≠ []) : IsMantissa (whole ++ pointPart fraction) := by
  obtain ⟨digit, member⟩ := List.exists_mem_of_ne_nil _ present
  have isDigit : digit.isDigit = true := by
    rcases List.mem_append.mp member with before | behind
    · exact wholeDigits digit before
    · exact fractionDigits digit behind
  cases fraction with
  | none =>
      simp only [pointPart, Option.getD_none, List.append_nil] at member ⊢
      exact ⟨fun c inside => Or.inl (wholeDigits c inside),
        by simp [mantissa_digits whole wholeDigits], digit, member, isDigit⟩
  | some behind =>
      simp only [pointPart, Option.getD_some] at member fractionDigits ⊢
      refine ⟨?_, ?_, digit, ?_, isDigit⟩
      · intro c inside
        simp only [List.mem_append, List.mem_cons] at inside
        rcases inside with before | rfl | after
        · exact Or.inl (wholeDigits c before)
        · exact Or.inr rfl
        · exact Or.inl (fractionDigits c after)
      · simp [mantissa_digits whole wholeDigits, mantissa_digits behind fractionDigits]
      · simp only [List.mem_append, List.mem_cons] at member ⊢
        exact member.elim Or.inl fun behind => Or.inr (Or.inr behind)

theorem mantissa_parts (mantissa : Text) (isMantissa : IsMantissa mantissa) :
    ∃ whole fraction, mantissa = whole ++ pointPart fraction ∧
      (∀ c ∈ whole, c.isDigit = true) ∧ (∀ c ∈ fraction.getD [], c.isDigit = true) ∧
      whole ++ fraction.getD [] ≠ [] := by
  obtain ⟨inside, points, digit, member, isDigit⟩ := isMantissa
  have split : mantissa.takeWhile Char.isDigit ++ mantissa.dropWhile Char.isDigit = mantissa :=
    List.takeWhile_append_dropWhile
  have wholeDigits := takeWhile_inside Char.isDigit mantissa
  cases tail : mantissa.dropWhile Char.isDigit with
  | nil =>
      rw [tail, List.append_nil] at split
      refine ⟨mantissa, none, by simp [pointPart], split ▸ wholeDigits, by simp, ?_⟩
      simpa using List.ne_nil_of_mem member
  | cons point behind =>
      -- What follows the digits starts with the only point, so only digits are left behind it.
      rw [tail] at split
      have notDigit : point.isDigit = false :=
        (stopsSpan_cons _ _ _).mp (tail ▸ stopsSpan_dropWhile Char.isDigit mantissa)
      have isPoint : point = '.' := by
        have chars := inside point (by rw [← split]; simp)
        simpa [notDigit] using chars
      subst point
      have noPoint : '.' ∉ behind := by
        rw [← List.count_eq_zero]
        rw [← split] at points
        simp [mantissa_digits _ wholeDigits] at points
        simpa using points
      have behindDigits : ∀ c ∈ behind, c.isDigit = true := by
        intro c behindMember
        have chars := inside c (by rw [← split]; simp [behindMember])
        exact chars.resolve_right fun same => noPoint (same ▸ behindMember)
      refine ⟨mantissa.takeWhile Char.isDigit, some behind, split.symm, wholeDigits,
        behindDigits, ?_⟩
      rw [← split] at member
      simp only [List.mem_append, List.mem_cons] at member
      refine List.ne_nil_of_mem (a := digit) ?_
      rcases member with before | rfl | after
      · exact List.mem_append_left _ before
      · exact absurd isDigit (by decide)
      · exact List.mem_append_right _ after

theorem stopsSign_mantissa (mantissa rest : Text) (isMantissa : IsMantissa mantissa) :
    StopsSpan isSign (mantissa ++ rest) := by
  have inside := mantissa_inside mantissa isMantissa
  obtain ⟨_, _, digit, member, _⟩ := isMantissa
  exact stopsSign_run mantissa rest (List.ne_nil_of_mem member) inside

theorem stopsMantissa_exponentPart (exponent : Text) (part : IsExponentPart exponent) :
    StopsSpan isMantissaChar exponent := by
  rcases part with rfl | ⟨mark, sign, digits, rfl, marked, _⟩
  · exact stopsSpan_nil _
  · rw [stopsSpan_cons]
    rcases marked with rfl | rfl <;> decide

theorem splitFraction_pointPart (fraction : Option Text) (rest : Text)
    (fractionDigits : ∀ c ∈ fraction.getD [], c.isDigit = true)
    (stops : StopsSpan isMantissaChar rest) :
    splitFraction (pointPart fraction ++ rest) = (fraction.getD [], rest) ∧
      StopsSpan Char.isDigit (pointPart fraction ++ rest) := by
  have stopsDigits : StopsSpan Char.isDigit rest := by
    intro c found
    have outside := stops c found
    simp only [isMantissaChar, Bool.or_eq_false_iff] at outside
    exact outside.1
  cases fraction with
  | none =>
      refine ⟨?_, stopsDigits⟩
      cases rest with
      | nil => rfl
      | cons c rest =>
          have outside := (stopsSpan_cons _ _ _).mp stops
          have notPoint : c ≠ '.' := by
            rintro rfl
            simp [isMantissaChar] at outside
          simp [pointPart, splitFraction, notPoint]
  | some behind =>
      refine ⟨?_, (stopsSpan_cons _ _ _).mpr (by decide)⟩
      simp only [pointPart, splitFraction, List.cons_append, ↓reduceIte, Option.getD_some]
      rw [takeWhile_span _ behind rest fractionDigits stopsDigits,
        dropWhile_span _ behind rest fractionDigits stopsDigits]

/-- How the reader takes a number apart, when its parts are given. -/
theorem ofText?_parts (sign whole : Text) (fraction : Option Text) (exponent : Text)
    (signPart : IsSignPart sign) (wholeDigits : ∀ c ∈ whole, c.isDigit = true)
    (fractionDigits : ∀ c ∈ fraction.getD [], c.isDigit = true)
    (present : whole ++ fraction.getD [] ≠ []) (exponentPart : IsExponentPart exponent) :
    Decimal.ofText? (sign ++ (whole ++ pointPart fraction ++ exponent)) =
      (exponentValue? exponent).map fun power =>
        ⟨sign = ['-'], digitsValue (whole ++ fraction.getD []),
          power - (fraction.getD []).length⟩ := by
  have isMantissa := isMantissa_parts whole fraction wholeDigits fractionDigits present
  have unsigned := splitSign_signPart sign _ signPart
    (stopsSign_mantissa (whole ++ pointPart fraction) exponent isMantissa)
  obtain ⟨fractionSplit, stops⟩ := splitFraction_pointPart fraction exponent fractionDigits
    (stopsMantissa_exponentPart exponent exponentPart)
  rw [List.append_assoc] at unsigned ⊢
  have digitsThere : (whole.isEmpty && (fraction.getD []).isEmpty) = false := by
    cases whole with
    | nil => simpa using present
    | cons c whole => rfl
  simp only [Decimal.ofText?, unsigned, takeWhile_span _ whole _ wholeDigits stops,
    dropWhile_span _ whole _ wholeDigits stops, fractionSplit, digitsThere,
    Bool.false_eq_true, ↓reduceIte]

theorem splitFraction_sound (text : Text) :
    ∃ fraction, (splitFraction text).1 = fraction.getD [] ∧
      (∀ c ∈ fraction.getD [], c.isDigit = true) ∧
      text = pointPart fraction ++ (splitFraction text).2 := by
  cases text with
  | nil => exact ⟨none, rfl, by simp, rfl⟩
  | cons c rest =>
      by_cases isPoint : c = '.'
      · subst isPoint
        exact ⟨some (rest.takeWhile Char.isDigit), rfl, takeWhile_inside _ rest, by
          simp [pointPart, splitFraction, List.takeWhile_append_dropWhile]⟩
      · exact ⟨none, by simp [splitFraction, isPoint], by simp, by
          simp [pointPart, splitFraction, isPoint]⟩

theorem isLiteral_of_ofText? (text : Text) (accepted : (Decimal.ofText? text).isSome = true) :
    IsLiteral text := by
  have signed := splitSign_append text
  generalize unsignedText : (splitSign text).2 = unsigned at signed
  have wholeSplit : unsigned.takeWhile Char.isDigit ++ unsigned.dropWhile Char.isDigit =
      unsigned := List.takeWhile_append_dropWhile
  obtain ⟨fraction, fractionText, fractionDigits, tailText⟩ :=
    splitFraction_sound (unsigned.dropWhile Char.isDigit)
  simp only [Decimal.ofText?, unsignedText, fractionText] at accepted
  split at accepted
  · simp at accepted
  · rename_i digitsThere
    refine ⟨(splitSign text).1, unsigned.takeWhile Char.isDigit ++ pointPart fraction,
      (splitFraction (unsigned.dropWhile Char.isDigit)).2, ?_, isSignPart_splitSign text,
      isMantissa_parts _ fraction (takeWhile_inside _ unsigned) fractionDigits ?_,
      (exponentValue?_isSome_iff _).mp (by simpa using accepted)⟩
    · rw [List.append_assoc, ← tailText, wholeSplit, signed]
    · intro absent
      simp [List.append_eq_nil_iff.mp absent] at digitsThere

/-- The reader of a whole text accepts exactly the texts of the grammar. -/
theorem ofText?_isSome_iff (text : Text) :
    (Decimal.ofText? text).isSome = true ↔ IsLiteral text := by
  constructor
  · exact isLiteral_of_ofText? text
  · rintro ⟨sign, mantissa, exponent, rfl, signPart, isMantissa, exponentPart⟩
    obtain ⟨whole, fraction, rfl, wholeDigits, fractionDigits, present⟩ :=
      mantissa_parts mantissa isMantissa
    rw [ofText?_parts sign whole fraction exponent signPart wholeDigits fractionDigits present
      exponentPart]
    simpa using (exponentValue?_isSome_iff exponent).mpr exponentPart

def isLiteralChar (c : Char) : Bool := isMantissaChar c || isSign c || isExponentMark c

theorem isLiteralChar_of_mantissa {c : Char} (inside : isMantissaChar c = true) :
    isLiteralChar c = true := by
  simp [isLiteralChar, inside]

theorem isLiteralChar_of_mem (literal : Text) (isLiteral : IsLiteral literal) :
    ∀ c ∈ literal, isLiteralChar c = true := by
  obtain ⟨sign, mantissa, exponent, rfl, signPart, isMantissa, exponentPart⟩ := isLiteral
  intro c member
  simp only [List.mem_append] at member
  rcases member with inSign | inMantissa | inExponent
  · simp [isLiteralChar, signPart_inside sign signPart c inSign]
  · exact isLiteralChar_of_mantissa (mantissa_inside mantissa isMantissa c inMantissa)
  · rcases exponentPart with rfl | ⟨mark, sign, digits, rfl, marked, signPart, _, digitsInside⟩
    · cases inExponent
    · simp only [List.mem_cons, List.mem_append] at inExponent
      rcases inExponent with rfl | inSign | inDigits
      · rcases marked with rfl | rfl <;> decide
      · simp [isLiteralChar, signPart_inside sign signPart c inSign]
      · exact isLiteralChar_of_mantissa (isMantissaChar_of_isDigit (digitsInside c inDigits))

theorem isBlank_eq_false_of_isLiteralChar (c : Char) (inside : isLiteralChar c = true) :
    isBlank c = false := by
  simp only [isLiteralChar, Bool.or_eq_true, isMantissaChar_iff, isSign_iff,
    isExponentMark_iff] at inside
  rcases inside with ((digit | rfl) | rfl | rfl) | rfl | rfl
  · exact isBlank_eq_false_of_isDigit c digit
  all_goals decide

/-- The text cannot be read as more of a number before it. -/
def EndsLiteral (after : Text) : Prop :=
  StopsSpan (fun c => isMantissaChar c || isExponentMark c) after

theorem EndsLiteral.mantissa {after : Text} (ends : EndsLiteral after) :
    StopsSpan isMantissaChar after := by
  intro c found
  have outside := ends c found
  simp only [Bool.or_eq_false_iff] at outside
  exact outside.1

/-- An exponent ends where its digits do. -/
theorem splitExponent_complete (exponent after : Text) (part : IsExponentPart exponent)
    (present : exponent ≠ []) (stops : StopsSpan Char.isDigit after) :
    splitExponent (exponent ++ after) = (exponent, after) := by
  rcases part with rfl | ⟨mark, sign, digits, rfl, marked, signPart, someDigits, inside⟩
  · exact absurd rfl present
  · have signSplit := splitSign_signPart sign (digits ++ after) signPart
      (stopsSign_digits digits after someDigits inside)
    have takenDigits := takeWhile_span _ digits after inside stops
    have restDigits := dropWhile_span _ digits after inside stops
    simp [splitExponent, signSplit, takenDigits, restDigits, someDigits,
      isExponentMark_iff.mpr marked]

theorem splitExponent_unmarked (after : Text) (stops : StopsSpan isExponentMark after) :
    splitExponent after = ([], after) := by
  cases after with
  | nil => rfl
  | cons c after => simp [splitExponent, (stopsSpan_cons _ _ _).mp stops]

theorem splitExponent_exponentPart (exponent after : Text)
    (exponentPart : IsExponentPart exponent) (ends : EndsLiteral after) :
    splitExponent (exponent ++ after) = (exponent, after) := by
  by_cases absent : exponent = []
  · subst absent
    apply splitExponent_unmarked
    intro c found
    have outside := ends c found
    simp only [Bool.or_eq_false_iff] at outside
    exact outside.2
  · apply splitExponent_complete exponent after exponentPart absent
    intro c found
    have outside := ends.mantissa c found
    simp only [isMantissaChar, Bool.or_eq_false_iff] at outside
    exact outside.1

theorem stopsMantissa_exponent_append (exponent after : Text)
    (exponentPart : IsExponentPart exponent) (ends : EndsLiteral after) :
    StopsSpan isMantissaChar (exponent ++ after) := by
  rcases exponentPart with rfl | ⟨mark, sign, digits, rfl, marked, _⟩
  · exact ends.mantissa
  · rw [List.cons_append, stopsSpan_cons]
    rcases marked with rfl | rfl <;> decide

theorem splitNumber_span (first : Char) (front exponent after : Text)
    (inside : ∀ c ∈ front, isMantissaChar c = true)
    (stops : StopsSpan isMantissaChar (exponent ++ after))
    (split : splitExponent (exponent ++ after) = (exponent, after)) :
    splitNumber first (front ++ exponent ++ after) = (first :: (front ++ exponent), after) := by
  rw [List.append_assoc]
  simp only [splitNumber, takeWhile_span _ front _ inside stops,
    dropWhile_span _ front _ inside stops, split]

/-- The scanner starts a number at a sign or at a run of digits and points, and cuts off the run
and the exponent behind it. A sign starts one only where an operand is due. -/
theorem splitNumber_cut (operandDue : Bool) (sign run exponent after : Text)
    (signPart : IsSignPart sign) (signDue : sign ≠ [] → operandDue = true) (present : run ≠ [])
    (inside : ∀ c ∈ run, isMantissaChar c = true)
    (stops : StopsSpan isMantissaChar (exponent ++ after))
    (split : splitExponent (exponent ++ after) = (exponent, after)) :
    ∃ first rest, sign ++ (run ++ exponent) = first :: rest ∧ isBlank first = false ∧
      startsNumber operandDue first (rest ++ after) = true ∧
      splitNumber first (rest ++ after) = (first :: rest, after) := by
  cases run with
  | nil => exact absurd rfl present
  | cons head front =>
      have headInside := inside head List.mem_cons_self
      -- The scanner looks at one character: the sign, or without one the head of the run.
      by_cases unsigned : sign = []
      · subst unsigned
        refine ⟨head, front ++ exponent, rfl, ?_, by simp [startsNumber, headInside], ?_⟩
        · exact isBlank_eq_false_of_isLiteralChar head (isLiteralChar_of_mantissa headInside)
        · exact splitNumber_span head front exponent after
            (fun c member => inside c (List.mem_cons_of_mem head member)) stops split
      · obtain ⟨mark, rfl, isMark⟩ : ∃ mark, sign = [mark] ∧ isSign mark = true := by
          rcases signPart.resolve_left unsigned with rfl | rfl
          · exact ⟨'+', rfl, rfl⟩
          · exact ⟨'-', rfl, rfl⟩
        refine ⟨mark, head :: front ++ exponent, rfl, ?_, ?_, ?_⟩
        · exact isBlank_eq_false_of_isLiteralChar mark (by simp [isLiteralChar, isMark])
        · simp [startsNumber, signDue unsigned, isMark, headInside]
        · exact splitNumber_span mark (head :: front) exponent after inside stops split

/-- Where an operand is due, the scanner cuts off a number as a whole. -/
theorem splitNumber_literal (literal after : Text) (isLiteral : IsLiteral literal)
    (ends : EndsLiteral after) :
    ∃ first rest, literal = first :: rest ∧ startsNumber true first (rest ++ after) = true ∧
      splitNumber first (rest ++ after) = (literal, after) := by
  obtain ⟨sign, mantissa, exponent, rfl, signPart, isMantissa, exponentPart⟩ := isLiteral
  have inside := mantissa_inside mantissa isMantissa
  obtain ⟨_, _, digit, member, _⟩ := isMantissa
  obtain ⟨first, rest, same, _, starts, cut⟩ :=
    splitNumber_cut true sign mantissa exponent after signPart (fun _ => rfl)
      (List.ne_nil_of_mem member) inside
      (stopsMantissa_exponent_append exponent after exponentPart ends)
      (splitExponent_exponentPart exponent after exponentPart ends)
  exact ⟨first, rest, same, starts, by rw [cut, same]⟩

/-- Zeros in front of digits change no value. -/
theorem digitsValue_zeros (zeros digits : Text) (allZero : ∀ c ∈ zeros, c = '0') :
    digitsValue (zeros ++ digits) = digitsValue digits := by
  rw [List.eq_replicate_of_mem allZero, digitsValue, Nat.ofDigitChars_append,
    Nat.ofDigitChars_replicate_zero, Nat.mul_zero]
  rfl

end DeskCalculator
