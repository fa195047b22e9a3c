import DeskCalculator.Proofs.Pieces
import DeskCalculator.Proofs.ShownText
import DeskCalculator.Proofs.Typing
import Mathlib.Data.List.Chain

/-!
Well formed buffers: what the display can hold. The characters of a buffer are added at its
end or, for a sign, at its head, so it is enough to know which characters may be added to a
well formed buffer and that a shorter one is well formed as well.
-/

namespace DeskCalculator

theorem snoc_split (text before after : Text) (c mark : Char)
    (same : text ++ [c] = before ++ mark :: after) :
    (after = [] ∧ c = mark ∧ text = before) ∨
      ∃ inner, after = inner ++ [c] ∧ text = before ++ mark :: inner := by
  rcases List.eq_nil_or_concat after with rfl | ⟨inner, last, rfl⟩
  · have parts := List.append_inj' same rfl
    exact Or.inl ⟨rfl, (List.cons.inj parts.2).1, parts.1⟩
  · rw [List.concat_eq_append] at same ⊢
    rw [← List.cons_append, ← List.append_assoc] at same
    have parts := List.append_inj' same rfl
    exact Or.inr ⟨inner, by rw [(List.cons.inj parts.2).1], parts.1⟩

namespace Buffer

def IsShownChar (c : Char) : Prop :=
  c.isDigit = true ∨ c ∈ ['.', 'e', '+', '-', 'x', '÷', '%']

/-- A piece has one point at most, and none behind an exponent mark. -/
structure WellPointed (piece : Text) : Prop where
  single : piece.count '.' ≤ 1
  whole : ∀ before after, piece = before ++ 'e' :: after → '.' ∉ after

/-- What stands in front of an exponent mark: a normalized number, negative or not. -/
def IsExponentBase (before : Text) : Prop :=
  ∃ unsigned, (before = unsigned ∨ before = '-' :: unsigned) ∧ IsNormalized unsigned

/-- What every buffer on the display satisfies. -/
structure WellFormed (buffer : Buffer) : Prop where
  nonempty : buffer ≠ []
  characters : ∀ c ∈ buffer, IsShownChar c
  apart : buffer.IsChain fun c next => ¬ (isOperator c = true ∧ isOperator next = true)
  head : ∀ c ∈ buffer.head?, isOperator c = true → c = '-'
  points : ∀ piece ∈ pieces buffer, WellPointed piece
  singleMark : buffer.count 'e' ≤ 1
  exponent : ∀ before after, buffer = before ++ 'e' :: after → IsExponentBase before

theorem wellPointed_nil : WellPointed [] := by
  constructor
  · simp
  · intro before after same
    simp at same

theorem wellPointed_front (piece : Text) (c : Char) (grown : WellPointed (piece ++ [c])) :
    WellPointed piece := by
  constructor
  · have count := grown.single
    rw [List.count_append] at count
    omega
  · intro before after same pointed
    have longer : piece ++ [c] = before ++ 'e' :: (after ++ [c]) := by simp [same]
    exact grown.whole before (after ++ [c]) longer (List.mem_append_left [c] pointed)

theorem wellPointed_snoc (piece : Text) (c : Char) (pointed : WellPointed piece)
    (noPoint : c ≠ '.') : WellPointed (piece ++ [c]) := by
  constructor
  · rw [List.count_append, List.count_cons_of_ne noPoint, List.count_nil, Nat.add_zero]
    exact pointed.single
  · intro before after same member
    rcases snoc_split piece before after c 'e' same with ⟨rfl, _, _⟩ | ⟨inner, rfl, split⟩
    · simp at member
    · rcases List.mem_append.mp member with old | new
      · exact pointed.whole before inner split old
      · exact noPoint (List.mem_singleton.mp new).symm

theorem wellPointed_point (piece : Text) (noPoint : '.' ∉ piece) (noMark : 'e' ∉ piece) :
    WellPointed (piece ++ ['.']) := by
  constructor
  · rw [List.count_append, List.count_eq_zero_of_not_mem noPoint]
    decide
  · intro before after same _
    rcases snoc_split piece before after '.' 'e' same with ⟨_, mark, _⟩ | ⟨inner, _, split⟩
    · exact absurd mark (by decide)
    · apply noMark
      rw [split]
      simp

theorem pieces_segment (buffer : Buffer) : ∃ front, pieces buffer = front ++ [segment buffer] := by
  refine ⟨(pieces buffer).dropLast, ?_⟩
  rw [segment_eq, List.getLastD_eq_getLast?, List.getLast?_eq_some_getLast (by simp [pieces])]
  exact (List.dropLast_concat_getLast _).symm

/-- A new character changes the piece being typed alone. -/
theorem pieces_grown (buffer : Buffer) (c : Char) :
    ∃ front, pieces buffer = front ++ [segment buffer] ∧
      (pieces (buffer ++ [c]) = front ++ [segment buffer, []] ∨
        pieces (buffer ++ [c]) = front ++ [segment buffer ++ [c]]) := by
  rcases pieces_segment buffer with ⟨front, split⟩
  refine ⟨front, split, ?_⟩
  rw [pieces_snoc, split]
  split
  · simp
  · simp [extendLast]

theorem takesPoint_absent (buffer : Buffer) (takes : takesPoint buffer = true) :
    '.' ∉ segment buffer ∧ 'e' ∉ segment buffer := by
  simp only [takesPoint, Bool.not_eq_true', List.any_eq_false, Bool.or_eq_true, beq_iff_eq,
    not_or] at takes
  constructor
  · intro member
    exact (takes '.' member).1 rfl
  · intro member
    exact (takes 'e' member).2 (by decide)

theorem points_snoc (buffer : Buffer) (c : Char)
    (pointed : ∀ piece ∈ pieces buffer, WellPointed piece)
    (point : c = '.' → takesPoint buffer = true) :
    ∀ piece ∈ pieces (buffer ++ [c]), WellPointed piece := by
  rcases pieces_grown buffer c with ⟨front, split, grown⟩
  rw [split] at pointed
  have current : WellPointed (segment buffer) := pointed _ (by simp)
  have longer : WellPointed (segment buffer ++ [c]) := by
    by_cases isPoint : c = '.'
    · subst isPoint
      have absent := takesPoint_absent buffer (point rfl)
      exact wellPointed_point _ absent.1 absent.2
    · exact wellPointed_snoc _ c current isPoint
  intro piece member
  rcases grown with cut | joined
  · rw [cut] at member
    simp only [List.mem_append, List.mem_cons, List.not_mem_nil, or_false] at member
    rcases member with old | rfl | rfl
    · exact pointed piece (List.mem_append_left _ old)
    · exact current
    · exact wellPointed_nil
  · rw [joined] at member
    rcases List.mem_append.mp member with old | new
    · exact pointed piece (List.mem_append_left _ old)
    · rwa [List.mem_singleton.mp new]

theorem points_front (buffer : Buffer) (c : Char)
    (pointed : ∀ piece ∈ pieces (buffer ++ [c]), WellPointed piece) :
    ∀ piece ∈ pieces buffer, WellPointed piece := by
  rcases pieces_grown buffer c with ⟨front, split, grown⟩
  intro piece member
  rw [split] at member
  rcases grown with cut | joined
  · rw [cut] at pointed
    rcases List.mem_append.mp member with old | current
    · exact pointed piece (List.mem_append_left _ old)
    · rw [List.mem_singleton.mp current]
      exact pointed _ (by simp)
  · rw [joined] at pointed
    rcases List.mem_append.mp member with old | current
    · exact pointed piece (List.mem_append_left _ old)
    · rw [List.mem_singleton.mp current]
      exact wellPointed_front _ c (pointed _ (by simp))

/-- The characters a well formed buffer may be lengthened by. An exponent mark is one of them
behind a normalized number. -/
theorem wellFormed_snoc (buffer : Buffer) (c : Char) (wellFormed : WellFormed buffer)
    (shown : IsShownChar c)
    (operator : isOperator c = true → endsInOperator buffer = false)
    (point : c = '.' → takesPoint buffer = true)
    (mark : c = 'e' → 'e' ∉ buffer ∧ IsExponentBase buffer) :
    WellFormed (buffer ++ [c]) := by
  constructor
  · simp
  · intro x member
    rcases List.mem_append.mp member with old | new
    · exact wellFormed.characters x old
    · rwa [List.mem_singleton.mp new]
  · apply List.IsChain.append wellFormed.apart (List.isChain_singleton c)
    rintro last lastIs next nextIs ⟨lastOperator, nextOperator⟩
    cases nextIs
    -- Two operators side by side would mean that the buffer ended in one.
    have ends : endsInOperator buffer = true := by
      rw [endsInOperator, Option.mem_def.mp lastIs]
      exact lastOperator
    rw [operator nextOperator] at ends
    cases ends
  · intro x first
    rw [List.head?_append_of_ne_nil _ wellFormed.nonempty] at first
    exact wellFormed.head x first
  · exact points_snoc buffer c wellFormed.points point
  · by_cases isMark : c = 'e'
    · subst isMark
      rw [List.count_append, List.count_eq_zero_of_not_mem (mark rfl).1]
      decide
    · rw [List.count_append, List.count_cons_of_ne isMark]
      exact wellFormed.singleMark
  · intro before after same
    rcases snoc_split buffer before after c 'e' same with ⟨_, isMark, rfl⟩ | ⟨inner, _, split⟩
    · exact (mark isMark).2
    · exact wellFormed.exponent before inner split

theorem wellFormed_front (buffer : Buffer) (c : Char) (grown : WellFormed (buffer ++ [c]))
    (nonempty : buffer ≠ []) : WellFormed buffer := by
  constructor
  · exact nonempty
  · intro x member
    exact grown.characters x (List.mem_append_left [c] member)
  · exact grown.apart.left_of_append
  · intro x first
    apply grown.head x
    rwa [List.head?_append_of_ne_nil _ nonempty]
  · exact points_front buffer c grown.points
  · have count := grown.singleMark
    rw [List.count_append] at count
    omega
  · intro before after same
    exact grown.exponent before (after ++ [c]) (by simp [same])

/-- A minus in front of a buffer is a sign, not an operator. -/
theorem wellFormed_minus (buffer : Buffer) (wellFormed : WellFormed buffer)
    (unsigned : buffer.head? ≠ some '-') : WellFormed ('-' :: buffer) := by
  constructor
  · simp
  · intro c member
    rcases List.mem_cons.mp member with rfl | old
    · exact Or.inr (by decide)
    · exact wellFormed.characters c old
  · apply List.isChain_cons.mpr
    constructor
    · rintro next first ⟨_, nextOperator⟩
      have sign := wellFormed.head next first nextOperator
      rw [Option.mem_def, sign] at first
      exact unsigned first
    · exact wellFormed.apart
  · rintro c ⟨⟩ _
    rfl
  · intro piece member
    rw [pieces_minus_cons] at member
    rcases List.mem_cons.mp member with rfl | old
    · exact wellPointed_nil
    · exact wellFormed.points piece old
  · rw [List.count_cons_of_ne (by decide)]
    exact wellFormed.singleMark
  · intro before after same
    cases before with
    | nil => simp at same
    | cons sign base =>
        simp only [List.cons_append, List.cons.injEq] at same
        rcases same with ⟨rfl, split⟩
        -- The base takes the sign; it has none yet, as the buffer has none.
        rcases wellFormed.exponent base after split with ⟨digits, rfl | rfl, normalized⟩
        · exact ⟨base, Or.inr rfl, normalized⟩
        · rw [split] at unsigned
          exact absurd rfl unsigned

theorem normalized_unsigned (text : Text) (normalized : IsNormalized text) :
    text.head? ≠ some '-' := by
  rcases normalized with ⟨lead, fraction, rfl, digit, _, _⟩
  intro same
  cases same
  exact absurd digit (by decide)

theorem wellFormed_tail (buffer : Buffer) (signed : WellFormed ('-' :: buffer))
    (nonempty : buffer ≠ []) : WellFormed buffer := by
  have chain := List.isChain_cons.mp signed.apart
  constructor
  · exact nonempty
  · intro c member
    exact signed.characters c (List.mem_cons_of_mem _ member)
  · exact chain.2
  · intro c first operator
    exact absurd ⟨by decide, operator⟩ (chain.1 c first)
  · intro piece member
    apply signed.points piece
    rw [pieces_minus_cons]
    exact List.mem_cons_of_mem [] member
  · have count := signed.singleMark
    rwa [List.count_cons_of_ne (by decide)] at count
  · intro before after same
    have split : '-' :: buffer = ('-' :: before) ++ 'e' :: after := by rw [same]; rfl
    rcases signed.exponent ('-' :: before) after split with
      ⟨digits, whole | parts, normalized⟩
    · rw [← whole] at normalized
      exact absurd rfl (normalized_unsigned _ normalized)
    · rw [(List.cons.inj parts).2]
      exact ⟨digits, Or.inl rfl, normalized⟩

end Buffer

end DeskCalculator
