import DeskCalculator.Proofs.EditingKeys

/-!
The number being typed. A text has one cut behind which no separator stands and in front of which
nothing stands or a separator does; the segment of the text is what lies behind it. An operator key
therefore leaves an empty segment, unless its sign lands behind an exponent mark: there it belongs
to the number.
-/

namespace DeskCalculator.Buffer

/-- An operator behind the text separates, unless it is a sign behind an exponent mark. -/
def Separates (front : Text) (c : Char) : Prop :=
  isOperator c = true ∧
    ¬ ((c = '+' ∨ c = '-') ∧ (front.getLast? = some 'e' ∨ front.getLast? = some 'E'))

/-- The place in a text where its last number begins. -/
structure CutsLast (front number : Text) : Prop where
  ended : front = [] ∨ ∃ before c, front = before ++ [c] ∧ Separates before c
  whole : ∀ before c after, number = before ++ c :: after → ¬ Separates (front ++ before) c

theorem isSeparator_iff (front : Text) (c : Char) :
    isSeparator front.getLast? c = true ↔ Separates front c := by
  have marked : front.getLast?.any isExponentMark = true ↔
      front.getLast? = some 'e' ∨ front.getLast? = some 'E' := by
    cases front.getLast? with
    | none => simp
    | some before => rw [Option.any_some, isExponentMark_iff, Option.some_inj, Option.some_inj]
  rw [isSeparator, Bool.and_eq_true, Bool.not_eq_true', ← Bool.not_eq_true, Bool.and_eq_true,
    isSign_iff, marked, Separates]

theorem segment_separator (front : Text) (c : Char) (separates : Separates front c) :
    segment (front ++ [c]) = [] := by
  rw [segment_snoc, if_pos ((isSeparator_iff front c).mpr separates)]

theorem segment_joined (front : Text) (c : Char) (joins : ¬ Separates front c) :
    segment (front ++ [c]) = segment front ++ [c] := by
  rw [segment_snoc, if_neg (mt (isSeparator_iff front c).mp joins)]

theorem CutsLast.segment_eq {front number : Text} (cuts : CutsLast front number) :
    segment (front ++ number) = number := by
  -- The induction is on the number from its end: without its last character it begins at the
  -- same cut.
  induction number using List.reverseRecOn with
  | nil =>
      rw [List.append_nil]
      rcases cuts.ended with rfl | ⟨before, c, rfl, separates⟩
      · rfl
      · exact segment_separator before c separates
  | append_singleton number c ih =>
      have shorter : CutsLast front number :=
        ⟨cuts.ended, fun before x after same => cuts.whole before x (after ++ [c]) (by simp [same])⟩
      rw [← List.append_assoc, segment_joined _ _ (cuts.whole number c [] rfl), ih shorter]

theorem cutsLast_segment (text : Text) :
    ∃ front, text = front ++ segment text ∧ CutsLast front (segment text) := by
  induction text using List.reverseRecOn with
  | nil => exact ⟨[], rfl, Or.inl rfl, by simp [segment, piecesAfter]⟩
  | append_singleton text c ih =>
      by_cases separates : Separates text c
      · rw [segment_separator text c separates]
        exact ⟨text ++ [c], by simp, Or.inr ⟨text, c, rfl, separates⟩, by simp⟩
      · rw [segment_joined text c separates]
        obtain ⟨front, split, cuts⟩ := ih
        refine ⟨front, by rw [← List.append_assoc, ← split], cuts.ended, ?_⟩
        intro before x after same
        rcases snoc_split (segment text) before after c x same with
          ⟨_, rfl, rfl⟩ | ⟨inner, _, earlier⟩
        · rwa [← split]
        · exact cuts.whole before x inner earlier

/-- The buffer ends in an exponent mark, or in one operator behind a mark, and the key is that of
a sign. -/
def SignsExponent (front buffer : Buffer) (op : Operator) : Prop :=
  (op = .plus ∨ op = .minus) ∧
    (buffer = front ++ ['e'] ∨
      ∃ last, isOperator last = true ∧ buffer = front ++ ['e', last])

theorem glyph_sign_iff (op : Operator) :
    op.glyph = '+' ∨ op.glyph = '-' ↔ op = .plus ∨ op = .minus := by
  cases op <;> decide

theorem not_separates_sign (front : Buffer) (op : Operator) (sign : op = .plus ∨ op = .minus) :
    ¬ Separates (front ++ ['e']) op.glyph := by
  rintro ⟨_, free⟩
  exact free ⟨(glyph_sign_iff op).mpr sign, Or.inl List.getLast?_concat⟩

/-- Behind an exponent mark a sign is added to the number, or takes the place of the operator that
was put there. -/
theorem pressOperator_exponent (front buffer : Buffer) (op : Operator)
    (signs : SignsExponent front buffer op) :
    pressOperator buffer op = front ++ ['e', op.glyph] ∧
      segment (pressOperator buffer op) = segment front ++ ['e', op.glyph] := by
  obtain ⟨sign, ending⟩ := signs
  have pressed : pressOperator buffer op = (front ++ ['e']) ++ [op.glyph] := by
    rcases ending with rfl | ⟨last, operator, rfl⟩
    · exact pressOperator_added _ op (endsInOperator_concat front 'e')
    · rw [← pressOperator_replaced (front ++ ['e']) last op (by simp) operator]
      simp
  have marked : segment (front ++ ['e']) = segment front ++ ['e'] :=
    segment_joined front 'e' fun separates => absurd separates.1 (by decide)
  rw [pressed, segment_joined _ _ (not_separates_sign front op sign), marked]
  simp

theorem separates_glyph (front : Buffer) (shown : ∀ c ∈ front, IsShownChar c) (op : Operator)
    (unmarked : ∀ base, front = base ++ ['e'] → ¬ (op = .plus ∨ op = .minus)) :
    Separates front op.glyph := by
  refine ⟨isOperator_glyph op, ?_⟩
  rintro ⟨sign, small | capital⟩
  · obtain ⟨base, split⟩ := List.getLast?_eq_some_iff.mp small
    exact unmarked base split ((glyph_sign_iff op).mp sign)
  · rcases shown 'E' (List.mem_of_getLast? capital) with digit | listed
    · exact absurd digit (by decide)
    · simp at listed

theorem segment_pressOperator (buffer : Buffer) (wellFormed : WellFormed buffer) (op : Operator)
    (free : ¬ ∃ front, SignsExponent front buffer op) : segment (pressOperator buffer op) = [] := by
  rcases wellFormed.ending_cases with rfl | notOperator | ⟨front, last, rfl, operator, present, _⟩
  · rw [pressOperator_sign]
    rfl
  · rw [pressOperator_added buffer op notOperator]
    apply segment_separator
    apply separates_glyph buffer wellFormed.characters
    intro base split sign
    exact free ⟨base, sign, Or.inl split⟩
  · rw [pressOperator_replaced front last op present operator]
    apply segment_separator
    apply separates_glyph front fun c member =>
      wellFormed.characters c (List.mem_append_left [last] member)
    rintro base rfl sign
    exact free ⟨base, sign, Or.inr ⟨last, operator, by simp⟩⟩

/-- The segment of a text lies behind its only cut. On the buffers that keys reach an operator key
leaves it empty, but for a sign where an exponent mark stands at the end of the buffer or in front
of an operator there: the sign joins the exponent and the segment ends in both. -/
theorem segment_isolated :
    (∀ text : Text, ∃ front, ∀ before number,
      (text = before ++ number ∧ CutsLast before number) ↔
        (before = front ∧ number = segment text)) ∧
    ∀ buffer, Reachable buffer → ∀ op : Operator,
      (segment (press buffer (.operator op)) = [] ↔ ¬ ∃ front, SignsExponent front buffer op) ∧
      ∀ front, SignsExponent front buffer op →
        press buffer (.operator op) = front ++ ['e', op.glyph] ∧
        segment (press buffer (.operator op)) = segment front ++ ['e', op.glyph] := by
  constructor
  · intro text
    obtain ⟨front, split, cuts⟩ := cutsLast_segment text
    refine ⟨front, fun before number => ⟨?_, ?_⟩⟩
    · rintro ⟨other, otherCuts⟩
      have same := otherCuts.segment_eq
      rw [← other] at same
      rw [split, same] at other
      exact ⟨(List.append_cancel_right other).symm, same.symm⟩
    · rintro ⟨rfl, rfl⟩
      exact ⟨split, cuts⟩
  · intro buffer reachable op
    refine ⟨⟨?_, segment_pressOperator buffer reachable.wellFormed op⟩, ?_⟩
    · rintro empty ⟨front, signs⟩
      have joined := (pressOperator_exponent front buffer op signs).2
      rw [press, joined] at empty
      simp at empty
    · exact fun front signs => pressOperator_exponent front buffer op signs

-- A small quotient whose exponent is taken back up to its sign, which a plus replaces.
theorem segment_isolated_exponent :
    let buffer : Buffer := ['1', 'e', '-']
    Reachable buffer ∧
      press buffer (.operator .plus) = ['1', 'e', '+'] ∧
      segment (press buffer (.operator .plus)) = ['1', 'e', '+'] ∧
      segment (press buffer (.operator .times)) = [] := by
  intro buffer
  have reachable : Reachable buffer :=
    ⟨[.digit 1, .operator .divide, .digit 1, .digit 0, .digit 0, .digit 0, .digit 0, .digit 0,
      .digit 0, .digit 0, .equals, .backspace], by decide +kernel⟩
  have joins := (segment_isolated.2 buffer reachable .plus).2 ['1']
    ⟨Or.inl rfl, Or.inr ⟨'-', by decide, rfl⟩⟩
  have separates := (segment_isolated.2 buffer reachable .times).1.mpr
    fun ⟨_, sign, _⟩ => absurd sign (by decide)
  exact ⟨reachable, joins.1, joins.2, separates⟩

end DeskCalculator.Buffer
