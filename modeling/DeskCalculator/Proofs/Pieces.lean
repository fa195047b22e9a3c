import DeskCalculator.Buffer

/-!
How the pieces of a buffer change as it grows at its end or at its head. One more character
either starts a new piece or lengthens the last one, so the piece being typed is known from
the character alone; a sign put in front cuts nothing behind it.
-/

namespace DeskCalculator.Buffer

def piecesFrom (before : Option Char) (text : Text) : List Text :=
  (piecesAfter before text).1 :: (piecesAfter before text).2

def extendLast (cut : List Text) (more : Text) : List Text :=
  cut.dropLast ++ [cut.getLastD [] ++ more]

theorem extendLast_cons (piece next : Text) (others : List Text) (more : Text) :
    extendLast (piece :: next :: others) more = piece :: extendLast (next :: others) more := by
  simp [extendLast]

theorem piecesFrom_cut (before : Option Char) (c : Char) (rest : Text)
    (cuts : isSeparator before c = true) :
    piecesFrom before (c :: rest) = [] :: piecesFrom (some c) rest := by
  simp [piecesFrom, piecesAfter, cuts]

theorem piecesFrom_joined (before : Option Char) (c : Char) (rest : Text)
    (joins : isSeparator before c = false) :
    piecesFrom before (c :: rest) =
      (c :: (piecesAfter (some c) rest).1) :: (piecesAfter (some c) rest).2 := by
  simp [piecesFrom, piecesAfter, joins]

theorem getLast?_cons_or (x : Char) (rest : Text) (before : Option Char) :
    (x :: rest).getLast?.or before = rest.getLast?.or (some x) := by
  rw [List.getLast?_cons]
  cases rest.getLast? <;> rfl

-- The character in front moves along with the induction, so that at the end of the text it is
-- the one the new character follows.
theorem piecesFrom_snoc (before : Option Char) (text : Text) (c : Char) :
    piecesFrom before (text ++ [c]) =
      if isSeparator (text.getLast?.or before) c then piecesFrom before text ++ [[]]
      else extendLast (piecesFrom before text) [c] := by
  induction text generalizing before with
  | nil =>
      by_cases cuts : isSeparator before c = true <;>
        simp [piecesFrom, piecesAfter, extendLast, cuts]
  | cons x rest ih =>
      have later := ih (some x)
      rw [List.cons_append, getLast?_cons_or]
      by_cases cuts : isSeparator before x = true
      · rw [piecesFrom_cut before x _ cuts, piecesFrom_cut before x _ cuts, later]
        split
        · rfl
        · exact (extendLast_cons _ _ _ _).symm
      · have joins : isSeparator before x = false := Bool.eq_false_iff.mpr cuts
        rw [piecesFrom_joined before x _ joins, piecesFrom_joined before x _ joins]
        by_cases starts : isSeparator (rest.getLast?.or (some x)) c = true
        · rw [if_pos starts] at later ⊢
          simp only [piecesFrom, List.cons_append, List.cons.injEq] at later
          rw [later.1, later.2]
          rfl
        · rw [if_neg starts] at later ⊢
          simp only [piecesFrom] at later
          cases others : (piecesAfter (some x) rest).2 with
          | nil =>
              rw [others] at later
              simp only [extendLast, List.dropLast_singleton, List.nil_append,
                List.getLastD_cons, List.getLastD_nil, List.cons.injEq] at later
              rw [later.1, later.2]
              rfl
          | cons next tail =>
              rw [others, extendLast_cons] at later
              simp only [List.cons.injEq] at later
              rw [later.1, later.2]
              exact (extendLast_cons _ _ _ _).symm

theorem pieces_snoc (buffer : Buffer) (c : Char) :
    pieces (buffer ++ [c]) =
      if isSeparator buffer.getLast? c then pieces buffer ++ [[]]
      else extendLast (pieces buffer) [c] := by
  have grown := piecesFrom_snoc none buffer c
  rw [Option.or_none] at grown
  exact grown

theorem segment_eq (buffer : Buffer) : segment buffer = (pieces buffer).getLastD [] := by
  rw [pieces, List.getLastD_cons]
  rfl

theorem segment_snoc (buffer : Buffer) (c : Char) :
    segment (buffer ++ [c]) =
      if isSeparator buffer.getLast? c then [] else segment buffer ++ [c] := by
  rw [segment_eq, segment_eq, pieces_snoc]
  split
  · simp
  · rw [extendLast, List.getLastD_concat]

/-- Only whether it is an exponent mark matters of the character in front. -/
theorem piecesFrom_congr (before other : Option Char) (text : Text)
    (same : before.any isExponentMark = other.any isExponentMark) :
    piecesFrom before text = piecesFrom other text := by
  cases text with
  | nil => rfl
  | cons c rest => simp [piecesFrom, piecesAfter, isSeparator, same]

theorem pieces_minus_cons (buffer : Buffer) : pieces ('-' :: buffer) = [] :: pieces buffer := by
  change piecesFrom none ('-' :: buffer) = [] :: piecesFrom none buffer
  rw [piecesFrom_cut none '-' buffer (by decide)]
  exact congrArg (List.cons []) (piecesFrom_congr (some '-') none buffer (by decide))

end DeskCalculator.Buffer
