import DeskCalculator.Proofs.LiteralGrammar
import DeskCalculator.Proofs.Pieces

/-!
Typing a text key by key. A digit or a point that the current piece takes is added to the
buffer, an operator behind a number is added too, and the zeros at the head of the first
number leave no trace, so the buffer after a typed expression is its text without them.
-/

namespace DeskCalculator.Buffer

/-- The labels of the keys, one character each, write the text. -/
def Spells (keys : List Key) (text : Text) : Prop :=
  keys.map Key.label = text.map fun c => [c]

theorem spells_nil (keys : List Key) (spelled : Spells keys []) : keys = [] := by
  simpa [Spells] using spelled

theorem spells_cons (keys : List Key) (c : Char) (text : Text)
    (spelled : Spells keys (c :: text)) :
    ∃ key rest, keys = key :: rest ∧ key.label = [c] ∧ Spells rest text := by
  cases keys with
  | nil => simp [Spells] at spelled
  | cons key rest =>
      simp only [Spells, List.map_cons, List.cons.injEq] at spelled
      exact ⟨key, rest, rfl, spelled.1, spelled.2⟩

theorem spells_append (front : Text) (keys : List Key) (text : Text)
    (spelled : Spells keys (front ++ text)) :
    ∃ first rest, keys = first ++ rest ∧ Spells first front ∧ Spells rest text := by
  induction front generalizing keys with
  | nil => exact ⟨[], keys, rfl, rfl, spelled⟩
  | cons c front ih =>
      rcases spells_cons keys c (front ++ text) spelled with ⟨key, others, rfl, label, later⟩
      rcases ih others later with ⟨first, rest, rfl, spellsFront, spellsText⟩
      refine ⟨key :: first, rest, rfl, ?_, spellsText⟩
      simpa [Spells, label] using spellsFront

theorem digitGlyph_isDigit (n : Nat) : (Key.digitGlyph n).isDigit = true := by
  have digits : ∀ m < 10, (Nat.digitChar m).isDigit = true := by decide
  exact digits (min n 9) (by omega)

theorem glyph_not_mantissa (op : Operator) : isMantissaChar op.glyph = false := by
  cases op <;> decide

theorem press_mantissa (buffer : Buffer) (key : Key) (c : Char) (label : key.label = [c])
    (inside : isMantissaChar c = true)
    (takes : c = '.' → takesPoint (typingBase buffer) = true) :
    press buffer key = typingBase buffer ++ [c] := by
  cases key with
  | digit n =>
      simp only [Key.label, List.cons.injEq, and_true] at label
      rw [press, label]
  | point =>
      simp only [Key.label, List.cons.injEq, and_true] at label
      subst label
      simp [press, takes rfl]
  | operator op =>
      simp only [Key.label, List.cons.injEq, and_true] at label
      rw [← label, glyph_not_mantissa] at inside
      cases inside
  | clear => simp [Key.label] at label
  | backspace =>
      simp only [Key.label, List.cons.injEq, and_true] at label
      subst label
      exact absurd inside (by decide)
  | sign => simp [Key.label] at label
  | equals =>
      simp only [Key.label, List.cons.injEq, and_true] at label
      subst label
      exact absurd inside (by decide)

theorem press_glyph (buffer : Buffer) (key : Key) (op : Operator)
    (label : key.label = [op.glyph]) : press buffer key = pressOperator buffer op := by
  cases key with
  | digit n =>
      simp only [Key.label, List.cons.injEq, and_true] at label
      have inside := isMantissaChar_of_isDigit (digitGlyph_isDigit n)
      rw [label, glyph_not_mantissa] at inside
      cases inside
  | operator other =>
      simp only [Key.label, List.cons.injEq, and_true] at label
      have same := Operator.ofGlyph?_glyph other
      rw [label, Operator.ofGlyph?_glyph] at same
      cases same
      rfl
  | clear => simp [Key.label] at label
  | sign => simp [Key.label] at label
  | point => cases op <;> simp [Key.label, Operator.glyph] at label
  | backspace => cases op <;> simp [Key.label, Operator.glyph] at label
  | equals => cases op <;> simp [Key.label, Operator.glyph] at label

theorem isOperator_eq_false_of_mantissa (c : Char) (inside : isMantissaChar c = true) :
    isOperator c = false := by
  cases found : Operator.ofGlyph? c with
  | none => simp [isOperator, found]
  | some op =>
      rw [← Operator.ofGlyph?_eq_some c op found, glyph_not_mantissa] at inside
      cases inside

theorem isSeparator_eq_false_of_mantissa (before : Option Char) (c : Char)
    (inside : isMantissaChar c = true) : isSeparator before c = false := by
  simp [isSeparator, isOperator_eq_false_of_mantissa c inside]

/-- Digits and points are one piece. -/
theorem piecesAfter_mantissa (text : Text) (before : Option Char)
    (inside : ∀ c ∈ text, isMantissaChar c = true) : piecesAfter before text = (text, []) := by
  induction text generalizing before with
  | nil => rfl
  | cons c rest ih =>
      have joins := isSeparator_eq_false_of_mantissa before c (inside c List.mem_cons_self)
      have later := ih (some c) fun x member => inside x (List.mem_cons_of_mem c member)
      simp [piecesAfter, joins, later]

theorem segment_mantissa (text : Text) (inside : ∀ c ∈ text, isMantissaChar c = true) :
    segment text = text := by
  simp [segment, piecesAfter_mantissa text none inside]

/-- The piece being typed is a number without an exponent so far. -/
def TypingNumber (buffer : Buffer) : Prop :=
  ∀ c ∈ segment buffer, isMantissaChar c = true

theorem takesPoint_iff (buffer : Buffer) (typing : TypingNumber buffer) :
    takesPoint buffer = true ↔ '.' ∉ segment buffer := by
  have noMark : ∀ c ∈ segment buffer, isExponentMark c = false :=
    fun c member => isExponentMark_eq_false_of_mantissa (typing c member)
  rw [takesPoint, Bool.not_eq_true', List.any_eq_false]
  constructor
  · intro free member
    exact free '.' member rfl
  · intro absent c member point
    rw [noMark c member, Bool.or_false, beq_iff_eq] at point
    exact absent (point ▸ member)

theorem takesPoint_mantissa (text : Text) (inside : ∀ c ∈ text, isMantissaChar c = true) :
    takesPoint text = true ↔ '.' ∉ text := by
  have whole := segment_mantissa text inside
  have typing : TypingNumber text := by rwa [TypingNumber, whole]
  rw [takesPoint_iff text typing, whole]

/-- Once the buffer is more than the zero it starts with, every character of a number whose
points are not too many is added to it. -/
theorem pressAll_mantissa (text : Text) (buffer : Buffer) (keys : List Key)
    (spelled : Spells keys text) (inside : ∀ c ∈ text, isMantissaChar c = true)
    (started : ∀ more, buffer ++ more ≠ initial) (typing : TypingNumber buffer)
    (points : (segment buffer ++ text).count '.' ≤ 1) :
    pressAll buffer keys = buffer ++ text ∧ TypingNumber (buffer ++ text) := by
  -- The induction is on the text still to be typed; that the piece is a number so far and how
  -- many points it has with what is to come are the facts carried along.
  induction text generalizing buffer keys with
  | nil =>
      cases spells_nil keys spelled
      simpa [pressAll] using typing
  | cons c text ih =>
      rcases spells_cons keys c text spelled with ⟨key, rest, rfl, label, later⟩
      have base : typingBase buffer = buffer := by
        rw [typingBase, if_neg]
        simpa using started []
      have chars := inside c List.mem_cons_self
      have takes : c = '.' → takesPoint (typingBase buffer) = true := by
        rintro rfl
        rw [base]
        apply (takesPoint_iff buffer typing).mpr
        simp only [List.count_append, List.count_cons_self] at points
        exact List.count_eq_zero.mp (by omega)
      have grown : segment (buffer ++ [c]) = segment buffer ++ [c] := by
        rw [segment_snoc, isSeparator_eq_false_of_mantissa _ c chars]
        rfl
      have pressed := press_mantissa buffer key c label chars takes
      rw [base] at pressed
      have others := ih (buffer ++ [c]) rest later
        (fun x member => inside x (List.mem_cons_of_mem c member))
        (fun more => by simpa using started (c :: more))
        (by
          intro x member
          rw [grown, List.mem_append, List.mem_singleton] at member
          rcases member with old | rfl
          · exact typing x old
          · exact chars)
        (by simpa [grown] using points)
      rw [pressAll, List.foldl_cons, pressed]
      simpa [pressAll] using others

/-- What is left on the display of a number typed first. -/
def withoutLeadingZeros (literal : Text) : Text :=
  if literal.all (· == '0') then ['0'] else literal.dropWhile (· == '0')

theorem withoutLeadingZeros_zeros (zeros : Text) (allZero : ∀ c ∈ zeros, c = '0') :
    withoutLeadingZeros zeros = ['0'] := by
  rw [withoutLeadingZeros, if_pos]
  simpa using allZero

theorem dropWhile_zeros (zeros rest : Text) (allZero : ∀ c ∈ zeros, c = '0')
    (stops : ∀ c ∈ rest.head?, c ≠ '0') : (zeros ++ rest).dropWhile (· == '0') = rest :=
  dropWhile_span (· == '0') zeros rest (fun c member => beq_iff_eq.mpr (allZero c member))
    fun c head => beq_eq_false_iff_ne.mpr (stops c head)

theorem withoutLeadingZeros_append (zeros : Text) (c : Char) (tail : Text)
    (allZero : ∀ x ∈ zeros, x = '0') (nonzero : c ≠ '0') :
    withoutLeadingZeros (zeros ++ c :: tail) = c :: tail := by
  rw [withoutLeadingZeros, if_neg (by simp [nonzero]), dropWhile_zeros zeros _ allZero]
  rintro _ ⟨⟩
  exact nonzero

theorem leadingZeros_split (text : Text) :
    ∃ zeros rest, text = zeros ++ rest ∧ (∀ c ∈ zeros, c = '0') ∧
      ∀ c ∈ rest.head?, c ≠ '0' := by
  refine ⟨text.takeWhile (· == '0'), text.dropWhile (· == '0'),
    List.takeWhile_append_dropWhile.symm, ?_, ?_⟩
  · intro c member
    simpa using takeWhile_inside (· == '0') text c member
  · intro c found
    simpa using stopsSpan_dropWhile (· == '0') text c found

theorem press_initial (key : Key) (c : Char) (label : key.label = [c])
    (inside : isMantissaChar c = true) : press initial key = [c] :=
  press_mantissa initial key c label inside fun _ => rfl

theorem pressAll_zeros (zeros : Text) (keys : List Key) (spelled : Spells keys zeros)
    (allZero : ∀ c ∈ zeros, c = '0') : pressAll initial keys = initial := by
  induction zeros generalizing keys with
  | nil =>
      cases spells_nil keys spelled
      rfl
  | cons c zeros ih =>
      rcases spells_cons keys c zeros spelled with ⟨key, rest, rfl, label, later⟩
      have zero := allZero c List.mem_cons_self
      subst zero
      rw [pressAll, List.foldl_cons, press_initial key '0' label (by decide)]
      exact ih rest later fun x member => allZero x (List.mem_cons_of_mem _ member)

/-- The buffer ends in a character of a number's digits and point. -/
def EndsInNumber (buffer : Buffer) : Prop :=
  ∃ front c, buffer = front ++ [c] ∧ isMantissaChar c = true

theorem endsInNumber_append (front text : Text) (present : text ≠ [])
    (inside : ∀ c ∈ text, isMantissaChar c = true) : EndsInNumber (front ++ text) := by
  refine ⟨front ++ text.dropLast, text.getLast present, ?_,
    inside _ (List.getLast_mem present)⟩
  rw [List.append_assoc, List.dropLast_concat_getLast]

theorem pressAll_first (literal : Text) (keys : List Key) (spelled : Spells keys literal)
    (isMantissa : IsMantissa literal) :
    pressAll initial keys = withoutLeadingZeros literal ∧
      EndsInNumber (withoutLeadingZeros literal) := by
  have inside := mantissa_inside literal isMantissa
  rcases leadingZeros_split literal with ⟨zeros, rest, rfl, allZero, stops⟩
  rcases spells_append zeros keys rest spelled with ⟨zeroKeys, others, rfl, spellsZeros, later⟩
  rw [pressAll_append, pressAll_zeros zeros zeroKeys spellsZeros allZero]
  cases rest with
  | nil =>
      cases spells_nil others later
      rw [List.append_nil, withoutLeadingZeros_zeros zeros allZero]
      exact ⟨rfl, [], '0', rfl, by decide⟩
  | cons c tail =>
      have nonzero : c ≠ '0' := stops c rfl
      have restInside : ∀ x ∈ c :: tail, isMantissaChar x = true :=
        fun x member => inside x (List.mem_append_right zeros member)
      rcases spells_cons others c tail later with ⟨key, tailKeys, rfl, label, spellsTail⟩
      have first := restInside c List.mem_cons_self
      have single : segment [c] = [c] := segment_mantissa [c] (by simpa using first)
      have points : ([c] ++ tail).count '.' ≤ 1 := by
        have total := isMantissa.2.1
        rw [List.count_append] at total
        exact Nat.le_trans (Nat.le_add_left _ _) total
      have typed := pressAll_mantissa tail [c] tailKeys spellsTail
        (fun x member => restInside x (List.mem_cons_of_mem c member))
        (fun more same => nonzero (List.cons.inj same).1)
        (by
          intro x member
          rw [single, List.mem_singleton] at member
          rwa [member])
        (by rwa [single])
      rw [pressAll, List.foldl_cons, press_initial key c label first,
        withoutLeadingZeros_append zeros c tail allZero nonzero]
      exact ⟨typed.1, endsInNumber_append [] (c :: tail) (by simp) restInside⟩

end DeskCalculator.Buffer

namespace DeskCalculator

/-- The key of an operation. -/
def Operation.key : Operation → Operator
  | add => .plus
  | subtract => .minus
  | multiply => .times
  | divide => .divide

theorem Operation.arithmeticSymbol_glyph (op : Operation) :
    arithmeticSymbol op.key.glyph = op.symbol := by
  cases op <;> decide

/-- The text of an expression as it is typed and shown. -/
def infixText (first : Text) (rest : List (Operation × Text)) : Text :=
  first ++ rest.flatMap fun pair => pair.1.key.glyph :: pair.2

namespace Buffer

theorem isOperator_glyph (op : Operator) : isOperator op.glyph = true := by
  simp [isOperator, Operator.ofGlyph?_glyph]

theorem endsInOperator_concat (front : Buffer) (last : Char) :
    endsInOperator (front ++ [last]) = isOperator last := by
  rw [endsInOperator, List.getLast?_concat, Option.any_some]

theorem pressOperator_sign (op : Operator) : pressOperator ['-'] op = ['-'] := if_pos rfl

theorem pressOperator_added (buffer : Buffer) (op : Operator)
    (free : endsInOperator buffer = false) : pressOperator buffer op = buffer ++ [op.glyph] := by
  have notSign : buffer ≠ ['-'] := by
    rintro rfl
    cases free
  rw [pressOperator, if_neg notSign, free]
  rfl

theorem pressOperator_replaced (front : Buffer) (last : Char) (op : Operator)
    (present : front ≠ []) (operator : isOperator last = true) :
    pressOperator (front ++ [last]) op = front ++ [op.glyph] := by
  have notSign : front ++ [last] ≠ ['-'] := fun same =>
    present (List.append_inj_left' same rfl)
  rw [pressOperator, if_neg notSign, endsInOperator_concat, if_pos operator,
    List.dropLast_concat]

theorem pressOperator_endsInNumber (buffer : Buffer) (ends : EndsInNumber buffer)
    (op : Operator) :
    pressOperator buffer op = buffer ++ [op.glyph] ∧ segment (buffer ++ [op.glyph]) = [] := by
  rcases ends with ⟨front, c, rfl, inside⟩
  have notOperator : endsInOperator (front ++ [c]) = false := by
    rw [endsInOperator_concat, isOperator_eq_false_of_mantissa c inside]
  have cuts : isSeparator (front ++ [c]).getLast? op.glyph = true := by
    simp [isSeparator, isOperator, Operator.ofGlyph?_glyph,
      isExponentMark_eq_false_of_mantissa inside]
  constructor
  · exact pressOperator_added _ op notOperator
  · rw [segment_snoc, if_pos cuts]

-- The induction is on the pairs still to be typed; that the buffer ends in a number is what
-- lets the next operator be added and starts a piece of its own.
theorem pressAll_pairs (rest : List (Operation × Text)) (buffer : Buffer) (keys : List Key)
    (spelled : Spells keys (rest.flatMap fun pair => pair.1.key.glyph :: pair.2))
    (literals : ∀ pair ∈ rest, IsMantissa pair.2) (ends : EndsInNumber buffer) :
    pressAll buffer keys =
      buffer ++ rest.flatMap fun pair => pair.1.key.glyph :: pair.2 := by
  induction rest generalizing buffer keys with
  | nil =>
      cases spells_nil keys spelled
      simp [pressAll]
  | cons pair rest ih =>
      rcases spells_cons keys pair.1.key.glyph _ spelled with ⟨key, others, rfl, label, later⟩
      rcases spells_append pair.2 others _ later with
        ⟨literalKeys, restKeys, rfl, spellsLiteral, spellsRest⟩
      have isMantissa := literals pair List.mem_cons_self
      have inside := mantissa_inside pair.2 isMantissa
      have present : pair.2 ≠ [] := by
        rcases isMantissa.2.2 with ⟨digit, member, _⟩
        exact List.ne_nil_of_mem member
      have pressed := pressOperator_endsInNumber buffer ends pair.1.key
      have typed := pressAll_mantissa pair.2 (buffer ++ [pair.1.key.glyph]) literalKeys
        spellsLiteral inside
        (by
          intro more same
          rcases ends with ⟨front, c, rfl, _⟩
          have lengths := congrArg List.length same
          simp [initial] at lengths
          omega)
        (by simp [TypingNumber, pressed.2])
        (by simpa [pressed.2] using isMantissa.2.1)
      have tail := ih (buffer ++ [pair.1.key.glyph] ++ pair.2) restKeys spellsRest
        (fun other member => literals other (List.mem_cons_of_mem pair member))
        (endsInNumber_append _ pair.2 present inside)
      rw [pressAll, List.foldl_cons, press_glyph buffer key pair.1.key label, pressed.1]
      rw [← pressAll, pressAll_append, typed.1, tail]
      simp

/-- The buffer after a clear and the keys of an expression. -/
theorem pressAll_infixText (buffer : Buffer) (first : Text) (rest : List (Operation × Text))
    (keys : List Key) (firstLiteral : IsMantissa first)
    (literals : ∀ pair ∈ rest, IsMantissa pair.2)
    (spelled : Spells keys (infixText first rest)) :
    pressAll buffer (.clear :: keys) = infixText (withoutLeadingZeros first) rest := by
  rcases spells_append first keys _ spelled with ⟨firstKeys, restKeys, rfl, spellsFirst, later⟩
  have begun := pressAll_first first firstKeys spellsFirst firstLiteral
  change pressAll initial (firstKeys ++ restKeys) = _
  rw [pressAll_append, begun.1]
  exact pressAll_pairs rest _ restKeys later literals begun.2

end Buffer

end DeskCalculator
