import DeskCalculator.Proofs.ReachableBuffer
import DeskCalculator.Proofs.WrittenNumber

/-!
The parts of a well formed buffer: a minus or none, the first number, and operators with a run
of digits and points behind each. The first number may carry an exponent, which may still lack
its digits; any other number is a run. The pieces of the buffer are the numbers of its parts.
-/

namespace DeskCalculator.Buffer

structure IsRun (run : Text) : Prop where
  inside : ∀ c ∈ run, isMantissaChar c = true
  single : run.count '.' ≤ 1

/-- Operators, each with what stands between it and the next one. -/
def tailText (tail : List (Operator × Text)) : Text :=
  tail.flatMap fun pair => pair.1.glyph :: pair.2

/-- Runs behind operators; only the last of them may be empty. -/
structure IsTail (tail : List (Operator × Text)) : Prop where
  runs : ∀ pair ∈ tail, IsRun pair.2
  filled : ∀ pair ∈ tail.dropLast, pair.2 ≠ []

/-- The first number in front of the given tail. An exponent without digits ends the buffer at
its sign, or is followed by an operator that is no sign. -/
inductive IsFirst (tail : List (Operator × Text)) : Text → Prop
  | run (run : Text) (isRun : IsRun run) (present : run ≠ []) : IsFirst tail run
  | scaled (base sign digits : Text) (normalized : IsNormalized base)
      (signPart : IsSignPart sign) (present : digits ≠ [])
      (inside : ∀ c ∈ digits, c.isDigit = true) :
      IsFirst tail (base ++ 'e' :: (sign ++ digits))
  | unscaled (base sign : Text) (normalized : IsNormalized base) (signPart : IsSignPart sign)
      (unsigned : sign = [] → ∀ pair ∈ tail.head?, isSign pair.1.glyph = false)
      (last : sign ≠ [] → tail = []) : IsFirst tail (base ++ 'e' :: sign)

/-- The minus at the head, the first number and the tail of a buffer. -/
structure HasParts (buffer : Buffer) (sign first : Text) (tail : List (Operator × Text)) :
    Prop where
  joined : buffer = sign ++ (first ++ tailText tail)
  cut : pieces buffer = sign.map (fun _ => []) ++ first :: tail.map Prod.snd
  sign : sign = [] ∨ sign = ['-']
  first : IsFirst tail first
  tail : IsTail tail

@[simp]
theorem tailText_cons (op : Operator) (run : Text) (rest : List (Operator × Text)) :
    tailText ((op, run) :: rest) = op.glyph :: (run ++ tailText rest) := by
  simp [tailText]

theorem isTail_rest (pair : Operator × Text) (rest : List (Operator × Text))
    (isTail : IsTail (pair :: rest)) : IsTail rest := by
  constructor
  · exact fun other member => isTail.runs other (List.mem_cons_of_mem pair member)
  · intro other member
    cases rest with
    | nil => cases member
    | cons next rest => exact isTail.filled other (by simp [member])

theorem isTail_last (op : Operator) (rest : List (Operator × Text))
    (isTail : IsTail ((op, []) :: rest)) : rest = [] := by
  by_contra more
  exact isTail.filled (op, []) (by simp [List.dropLast_cons_of_ne_nil more]) rfl

/-- Every operator cuts, unless it is a sign behind an exponent mark. -/
theorem isSeparator_operator (before : Option Char) (c : Char) (operator : isOperator c = true)
    (free : before.any isExponentMark = true → isSign c = false) :
    isSeparator before c = true := by
  cases marked : before.any isExponentMark with
  | false => simp [isSeparator, operator, marked]
  | true => simp [isSeparator, operator, free marked]

theorem piecesAfter_append (front rest : Text) (before : Option Char)
    (inside : ∀ c ∈ front, isOperator c = false) :
    piecesAfter before (front ++ rest) =
      (front ++ (piecesAfter (front.getLast?.or before) rest).1,
        (piecesAfter (front.getLast?.or before) rest).2) := by
  induction front generalizing before with
  | nil => simp
  | cons c front ih =>
      have joins : isSeparator before c = false := by
        simp [isSeparator, inside c List.mem_cons_self]
      have later := ih (some c) fun x member => inside x (List.mem_cons_of_mem c member)
      rw [getLast?_cons_or]
      simp [piecesAfter, joins, later]

theorem cut_exists (text : Text) (before : Option Char)
    (inside : ∀ c ∈ text, isMantissaChar c = true ∨ isOperator c = true)
    (free : before.any isExponentMark = true → ∀ c ∈ text.head?, isSign c = false) :
    ∃ run tail, text = run ++ tailText tail ∧ (∀ c ∈ run, isMantissaChar c = true) ∧
      (∀ pair ∈ tail, ∀ c ∈ pair.2, isMantissaChar c = true) ∧
      piecesAfter before text = (run, tail.map Prod.snd) := by
  induction text generalizing before with
  | nil => exact ⟨[], [], rfl, by simp, by simp, rfl⟩
  | cons c rest ih =>
      have unmarked : (some c).any isExponentMark = false := by
        rcases inside c List.mem_cons_self with mantissa | operator
        · exact isExponentMark_eq_false_of_mantissa mantissa
        · obtain ⟨op, found⟩ := Option.isSome_iff_exists.mp operator
          rw [← Operator.ofGlyph?_eq_some c op found]
          cases op <;> decide
      obtain ⟨run, tail, rfl, runInside, tailInside, cut⟩ :=
        ih (some c) (fun x member => inside x (List.mem_cons_of_mem c member))
          (by simp [unmarked])
      rcases inside c List.mem_cons_self with mantissa | operator
      · refine ⟨c :: run, tail, rfl, ?_, tailInside, ?_⟩
        · simpa [mantissa] using runInside
        · simp [piecesAfter, isSeparator_eq_false_of_mantissa before c mantissa, cut]
      · have cuts := isSeparator_operator before c operator
          fun marked => free marked c rfl
        obtain ⟨op, found⟩ := Option.isSome_iff_exists.mp operator
        obtain rfl := Operator.ofGlyph?_eq_some c op found
        refine ⟨[], (op, run) :: tail, by simp, by simp, ?_, ?_⟩
        · rintro pair member
          rcases List.mem_cons.mp member with rfl | later
          · exact runInside
          · exact tailInside pair later
        · simp [piecesAfter, cuts, cut]

theorem filled_of_apart (tail : List (Operator × Text))
    (apart : (tailText tail).IsChain fun c next =>
      ¬ (isOperator c = true ∧ isOperator next = true)) :
    ∀ pair ∈ tail.dropLast, pair.2 ≠ [] := by
  induction tail with
  | nil => simp
  | cons pair rest ih =>
      obtain ⟨op, run⟩ := pair
      rw [tailText_cons] at apart
      cases rest with
      | nil => simp
      | cons next rest =>
          intro other member
          rw [List.dropLast_cons_of_ne_nil (by simp)] at member
          rcases List.mem_cons.mp member with rfl | behind
          · rintro rfl
            obtain ⟨nextOp, nextRun⟩ := next
            rw [tailText_cons, List.nil_append, List.isChain_cons_cons] at apart
            exact apart.1 ⟨isOperator_glyph op, isOperator_glyph nextOp⟩
          · rw [← List.cons_append] at apart
            exact ih apart.right_of_append other behind

theorem IsShownChar.cases {c : Char} (shown : IsShownChar c) (noMark : c ≠ 'e') :
    isMantissaChar c = true ∨ isOperator c = true := by
  rcases shown with digit | other
  · exact Or.inl (isMantissaChar_of_isDigit digit)
  · simp only [List.mem_cons, List.not_mem_nil, or_false] at other
    rcases other with rfl | rfl | rfl | rfl | rfl | rfl | rfl
    · exact Or.inl (by decide)
    · exact absurd rfl noMark
    all_goals exact Or.inr (by decide)

theorem isMantissa_of_normalized (text : Text) (normalized : IsNormalized text) :
    IsMantissa text := by
  obtain ⟨lead, fraction, rfl, leadDigit, _, fractionDigits⟩ := normalized
  obtain ⟨part, split, rfl⟩ := pointed_eq fraction
  rw [split, ← List.singleton_append]
  exact isMantissa_parts [lead] part (by simpa using leadDigit) fractionDigits (by simp)

theorem isTail_of_pieces (buffer : Buffer) (wellFormed : WellFormed buffer) (front : Text)
    (tail : List (Operator × Text)) (joined : buffer = front ++ tailText tail)
    (inside : ∀ pair ∈ tail, ∀ c ∈ pair.2, isMantissaChar c = true)
    (cut : ∀ pair ∈ tail, pair.2 ∈ pieces buffer) : IsTail tail := by
  constructor
  · intro pair member
    exact ⟨inside pair member, (wellFormed.points pair.2 (cut pair member)).single⟩
  · have apart := wellFormed.apart
    rw [joined] at apart
    exact filled_of_apart tail apart.right_of_append

theorem parts_of_unmarked (buffer : Buffer) (wellFormed : WellFormed buffer)
    (unsigned : ∀ c ∈ buffer.head?, isOperator c = false) (unmarked : 'e' ∉ buffer) :
    ∃ first tail, HasParts buffer [] first tail := by
  have inside : ∀ c ∈ buffer, isMantissaChar c = true ∨ isOperator c = true :=
    fun c member => (wellFormed.characters c member).cases fun mark => unmarked (mark ▸ member)
  obtain ⟨run, tail, joined, runInside, tailInside, cut⟩ :=
    cut_exists buffer none inside (by simp)
  have cutPieces : pieces buffer = run :: tail.map Prod.snd := by rw [pieces, cut]
  have present : run ≠ [] := by
    rintro rfl
    cases tail with
    | nil => exact wellFormed.nonempty joined
    | cons pair rest =>
        have head := unsigned pair.1.glyph (by rw [joined]; simp [tailText])
        rw [isOperator_glyph] at head
        cases head
  have isRun : IsRun run :=
    ⟨runInside, (wellFormed.points run (by simp [cutPieces])).single⟩
  refine ⟨run, tail, joined, by simpa using cutPieces, Or.inl rfl, .run run isRun present, ?_⟩
  apply isTail_of_pieces buffer wellFormed run tail joined tailInside
  intro pair member
  rw [cutPieces]
  exact List.mem_cons_of_mem run (List.mem_map_of_mem member)

/-- The sign of an exponent cuts nothing. -/
theorem piecesAfter_exponentSign (sign rest : Text) (signPart : IsSignPart sign) :
    piecesAfter (some 'e') (sign ++ rest) =
      (sign ++ (piecesAfter (sign.getLast?.or (some 'e')) rest).1,
        (piecesAfter (sign.getLast?.or (some 'e')) rest).2) := by
  rcases signPart with rfl | rfl | rfl
  · simp
  · simp [piecesAfter, show isSeparator (some 'e') '+' = false by decide]
  · simp [piecesAfter, show isSeparator (some 'e') '-' = false by decide]

theorem pieces_scientific (base sign rest : Text) (normalized : IsNormalized base)
    (signPart : IsSignPart sign) :
    pieces (base ++ 'e' :: (sign ++ rest)) =
      (base ++ 'e' :: (sign ++ (piecesAfter (sign.getLast?.or (some 'e')) rest).1)) ::
        (piecesAfter (sign.getLast?.or (some 'e')) rest).2 := by
  have inside := mantissa_inside base (isMantissa_of_normalized base normalized)
  have joins : ∀ c ∈ base ++ ['e'], isOperator c = false := by
    intro c member
    rcases List.mem_append.mp member with inBase | mark
    · exact isOperator_eq_false_of_mantissa c (inside c inBase)
    · rw [List.mem_singleton.mp mark]
      rfl
  have cut := piecesAfter_append (base ++ ['e']) (sign ++ rest) none joins
  rw [List.getLast?_concat, Option.some_or, piecesAfter_exponentSign sign rest signPart,
    List.append_assoc] at cut
  rw [pieces]
  simpa using congrArg (fun cut : Text × List Text => cut.1 :: cut.2) cut

theorem sign_exists (text : Text) :
    ∃ sign behind, text = sign ++ behind ∧ IsSignPart sign ∧
      (sign = [] → ∀ c ∈ behind.head?, isSign c = false) := by
  cases text with
  | nil => exact ⟨[], [], rfl, Or.inl rfl, by simp⟩
  | cons c rest =>
      cases signed : isSign c with
      | false =>
          refine ⟨[], c :: rest, rfl, Or.inl rfl, ?_⟩
          rintro _ x ⟨⟩
          exact signed
      | true =>
          refine ⟨[c], rest, rfl, Or.inr ?_, by simp⟩
          rcases isSign_iff.mp signed with rfl | rfl
          · exact Or.inl rfl
          · exact Or.inr rfl

theorem isFirst_unscaled (base sign : Text) (tail : List (Operator × Text))
    (wellFormed : WellFormed (base ++ 'e' :: (sign ++ tailText tail)))
    (normalized : IsNormalized base) (signPart : IsSignPart sign)
    (free : sign = [] → ∀ c ∈ (tailText tail).head?, isSign c = false) :
    IsFirst tail (base ++ 'e' :: sign) := by
  apply IsFirst.unscaled base sign normalized signPart
  · rintro none pair head
    apply free none
    cases tail with
    | nil => cases head
    | cons other rest =>
        cases head
        simp [tailText]
  · intro signed
    cases tail with
    | nil => rfl
    | cons pair rest =>
        -- The sign of the exponent is an operator, and operators stand apart.
        obtain ⟨op, run⟩ := pair
        have apart := wellFormed.apart.right_of_append.tail
        rw [List.tail_cons, tailText_cons] at apart
        rcases signPart with rfl | rfl | rfl
        · exact absurd rfl signed
        all_goals
          rw [List.singleton_append, List.isChain_cons_cons] at apart
          exact absurd ⟨by decide, isOperator_glyph op⟩ apart.1

theorem parts_of_marked (buffer : Buffer) (wellFormed : WellFormed buffer)
    (unsigned : ∀ c ∈ buffer.head?, isOperator c = false) (marked : 'e' ∈ buffer) :
    ∃ first tail, HasParts buffer [] first tail := by
  obtain ⟨base, after, rfl⟩ := List.mem_iff_append.mp marked
  have normalized : IsNormalized base := by
    obtain ⟨digits, rfl | rfl, normalized⟩ := wellFormed.exponent base after rfl
    · exact normalized
    · exact absurd (unsigned '-' rfl) (by decide)
  have noMark : 'e' ∉ after := by
    have single := wellFormed.singleMark
    rw [List.count_append, List.count_cons_self] at single
    exact List.count_eq_zero.mp (by omega)
  obtain ⟨sign, behind, rfl, signPart, free⟩ := sign_exists after
  have inside : ∀ c ∈ behind, isMantissaChar c = true ∨ isOperator c = true := by
    intro c member
    apply (wellFormed.characters c (by simp [member])).cases
    rintro rfl
    exact noMark (List.mem_append_right sign member)
  obtain ⟨digits, tail, rfl, digitsInside, tailInside, cut⟩ :=
    cut_exists behind (sign.getLast?.or (some 'e')) inside (by
      intro mark
      apply free
      rcases signPart with rfl | rfl | rfl
      · rfl
      · cases mark
      · cases mark)
  have cutPieces := pieces_scientific base sign (digits ++ tailText tail) normalized signPart
  rw [cut] at cutPieces
  have isTail : IsTail tail := by
    apply isTail_of_pieces _ wellFormed (base ++ 'e' :: (sign ++ digits)) tail (by simp)
      tailInside
    intro pair member
    rw [cutPieces]
    exact List.mem_cons_of_mem _ (List.mem_map_of_mem member)
  -- No point stands behind the mark in its piece, so what is left of it are digits.
  have noPoint := (wellFormed.points _ (by rw [cutPieces]; exact List.mem_cons_self)).whole
    base (sign ++ digits) rfl
  have isDigits : ∀ c ∈ digits, c.isDigit = true := by
    intro c member
    apply (isMantissaChar_iff.mp (digitsInside c member)).resolve_right
    rintro rfl
    exact noPoint (List.mem_append_right sign member)
  refine ⟨base ++ 'e' :: (sign ++ digits), tail, by simp, by simpa using cutPieces,
    Or.inl rfl, ?_, isTail⟩
  by_cases present : digits = []
  · subst present
    rw [List.append_nil]
    exact isFirst_unscaled base sign tail wellFormed normalized signPart free
  · exact .scaled base sign digits normalized signPart present isDigits

/-- Every well formed buffer is a minus alone or has the three parts. -/
theorem parts_exist (buffer : Buffer) (wellFormed : WellFormed buffer) :
    buffer = ['-'] ∨ ∃ sign first tail, HasParts buffer sign first tail := by
  have unsignedParts (unsigned : Buffer) (formed : WellFormed unsigned)
      (head : ∀ c ∈ unsigned.head?, isOperator c = false) :
      ∃ first tail, HasParts unsigned [] first tail := by
    by_cases marked : 'e' ∈ unsigned
    · exact parts_of_marked unsigned formed head marked
    · exact parts_of_unmarked unsigned formed head marked
  cases buffer with
  | nil => exact absurd rfl wellFormed.nonempty
  | cons c rest =>
      by_cases operator : isOperator c = true
      · obtain rfl := wellFormed.head c rfl operator
        by_cases alone : rest = []
        · exact Or.inl (by rw [alone])
        · have formed := wellFormed_tail rest wellFormed alone
          have head : ∀ x ∈ rest.head?, isOperator x = false := by
            intro x first
            have pair := (List.isChain_cons.mp wellFormed.apart).1 x first
            exact Bool.eq_false_iff.mpr fun next => pair ⟨by decide, next⟩
          obtain ⟨first, tail, parts⟩ := unsignedParts rest formed head
          refine Or.inr ⟨['-'], first, tail, ?_, ?_, Or.inr rfl, parts.first, parts.tail⟩
          · rw [parts.joined]
            rfl
          · rw [pieces_minus_cons, parts.cut]
            rfl
      · have head : ∀ x ∈ (c :: rest).head?, isOperator x = false := by
          rintro x ⟨⟩
          exact Bool.eq_false_iff.mpr operator
        obtain ⟨first, tail, parts⟩ := unsignedParts (c :: rest) wellFormed head
        exact Or.inr ⟨[], first, tail, parts⟩

end DeskCalculator.Buffer
