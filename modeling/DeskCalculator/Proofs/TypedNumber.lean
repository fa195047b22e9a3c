import DeskCalculator.Proofs.TypedExpression
import Mathlib.Data.List.Induction

/-!
A number typed from the start. Of the digits and points that are pressed the buffer keeps the
digits and the first point, without the zeros at the head; a lone zero is dropped by the next
key. What is kept has the value of what was typed wherever that is a number with a nonzero digit
or a digit behind its point.
-/

namespace DeskCalculator

/-- The text without its points but the first. -/
def withFirstPoint : Text → Text
  | [] => []
  | c :: rest => if c = '.' then c :: rest.filter (· ≠ '.') else c :: withFirstPoint rest

-- The induction is on the text in front; once its point is met, all that is left is filtered.
theorem withFirstPoint_snoc (text : Text) (c : Char) :
    withFirstPoint (text ++ [c]) =
      if c = '.' ∧ '.' ∈ text then withFirstPoint text else withFirstPoint text ++ [c] := by
  induction text with
  | nil => by_cases point : c = '.' <;> simp [withFirstPoint, point]
  | cons x rest ih =>
      by_cases first : x = '.'
      · by_cases point : c = '.' <;> simp [withFirstPoint, first, point]
      · have pointThere : '.' ∈ x :: rest ↔ '.' ∈ rest := by
          simp [Ne.symm first]
        rw [List.cons_append, withFirstPoint, if_neg first, ih, withFirstPoint, if_neg first]
        simp only [pointThere]
        split
        · rfl
        · rfl

theorem withFirstPoint_digit (text : Text) (c : Char) (digit : c.isDigit = true) :
    withFirstPoint (text ++ [c]) = withFirstPoint text ++ [c] := by
  rw [withFirstPoint_snoc, if_neg]
  rintro ⟨rfl, _⟩
  cases digit

theorem point_mem_withFirstPoint (text : Text) : '.' ∈ withFirstPoint text ↔ '.' ∈ text := by
  induction text with
  | nil => rfl
  | cons c rest ih =>
      by_cases point : c = '.'
      · simp [withFirstPoint, point]
      · simp [withFirstPoint, point, ih]

theorem withFirstPoint_sublist (text : Text) : (withFirstPoint text).Sublist text := by
  induction text with
  | nil => exact .slnil
  | cons c rest ih =>
      rw [withFirstPoint]
      split
      · exact List.filter_sublist.cons_cons c
      · exact ih.cons_cons c

theorem withFirstPoint_count (text : Text) : (withFirstPoint text).count '.' ≤ 1 := by
  induction text with
  | nil => simp [withFirstPoint]
  | cons c rest ih =>
      by_cases point : c = '.'
      · have others : (rest.filter (· ≠ '.')).count '.' = 0 := by
          rw [List.count_eq_zero]
          simp
        rw [withFirstPoint, if_pos point, point, List.count_cons_self, others]
      · rw [withFirstPoint, if_neg point, List.count_cons_of_ne point]
        exact ih

namespace Buffer

theorem typingBase_withoutLeadingZeros (text : Text) :
    typingBase (withoutLeadingZeros text) = text.dropWhile (· == '0') := by
  rcases leadingZeros_split text with ⟨zeros, rest, rfl, allZero, stops⟩
  rw [dropWhile_zeros zeros rest allZero stops]
  cases rest with
  | nil =>
      rw [List.append_nil, withoutLeadingZeros_zeros zeros allZero]
      rfl
  | cons c tail =>
      rw [withoutLeadingZeros_append zeros c tail allZero (stops c rfl), typingBase, if_neg]
      intro same
      exact stops c rfl (List.cons.inj same).1

theorem withoutLeadingZeros_snoc (text : Text) (c : Char) :
    withoutLeadingZeros (text ++ [c]) = typingBase (withoutLeadingZeros text) ++ [c] := by
  rcases leadingZeros_split text with ⟨zeros, rest, rfl, allZero, stops⟩
  rw [typingBase_withoutLeadingZeros, dropWhile_zeros zeros rest allZero stops,
    List.append_assoc]
  cases rest with
  | nil =>
      by_cases zero : c = '0'
      · subst zero
        have all : ∀ x ∈ zeros ++ ['0'], x = '0' :=
          List.forall_mem_append.mpr ⟨allZero, List.forall_mem_singleton.mpr rfl⟩
        exact withoutLeadingZeros_zeros (zeros ++ ['0']) all
      · exact withoutLeadingZeros_append zeros c [] allZero zero
  | cons first tail =>
      exact withoutLeadingZeros_append zeros first (tail ++ [c]) allZero (stops first rfl)

def IsNumberKey (key : Key) : Prop := key = .point ∨ ∃ n, key = .digit n

theorem number_inside (keys : List Key) (typed : ∀ key ∈ keys, IsNumberKey key) :
    ∀ c ∈ keys.flatMap Key.label, isMantissaChar c = true := by
  intro c member
  obtain ⟨key, inKeys, inLabel⟩ := List.mem_flatMap.mp member
  rcases typed key inKeys with rfl | ⟨n, rfl⟩
  · rw [List.mem_singleton.mp inLabel]
    rfl
  · rw [List.mem_singleton.mp inLabel]
    exact isMantissaChar_of_isDigit (digitGlyph_isDigit n)

theorem point_mem_dropWhile (text : Text) : '.' ∈ text.dropWhile (· == '0') ↔ '.' ∈ text := by
  have split := List.takeWhile_append_dropWhile (p := (· == '0')) (l := text)
  have zeros : '.' ∉ text.takeWhile (· == '0') := fun member =>
    absurd (takeWhile_inside (· == '0') text '.' member) (by decide)
  rw [← split, List.mem_append, split]
  exact (or_iff_right zeros).symm

theorem press_point_number (text : Text) (inside : ∀ c ∈ text, isMantissaChar c = true) :
    press (withoutLeadingZeros (withFirstPoint text)) .point =
      withoutLeadingZeros (withFirstPoint (text ++ ['.'])) := by
  generalize same : withoutLeadingZeros (withFirstPoint text) = buffer
  have base : typingBase buffer = (withFirstPoint text).dropWhile (· == '0') := by
    rw [← same, typingBase_withoutLeadingZeros]
  have point : '.' ∈ typingBase buffer ↔ '.' ∈ text := by
    rw [base, point_mem_dropWhile, point_mem_withFirstPoint]
  have takes : takesPoint (typingBase buffer) = true ↔ '.' ∉ text := by
    rw [takesPoint_mantissa, point]
    intro c member
    rw [base] at member
    exact inside c ((withFirstPoint_sublist text).subset (List.dropWhile_subset _ member))
  rw [press, withFirstPoint_snoc]
  by_cases present : '.' ∈ text
  · rw [if_neg (mt takes.mp (not_not.mpr present)), if_pos ⟨rfl, present⟩, same, typingBase,
      if_neg]
    intro zero
    rw [typingBase, if_pos zero] at point
    cases point.mpr present
  · rw [if_pos (takes.mpr present), if_neg fun both => present both.2, withoutLeadingZeros_snoc,
      same]

/-- What digit and point keys type: their labels, with the first point only. -/
def numberText (keys : List Key) : Text := withFirstPoint (keys.flatMap Key.label)

theorem numberText_inside (keys : List Key) (typed : ∀ key ∈ keys, IsNumberKey key) :
    ∀ c ∈ numberText keys, isMantissaChar c = true :=
  fun c member => number_inside keys typed c ((withFirstPoint_sublist _).subset member)

/-- The buffer is what was typed without the zeros at its head. -/
theorem pressAll_number (keys : List Key) (typed : ∀ key ∈ keys, IsNumberKey key) :
    pressAll initial keys = withoutLeadingZeros (numberText keys) := by
  induction keys using List.reverseRecOn with
  | nil => rfl
  | append_singleton keys key ih =>
      have typedBefore : ∀ other ∈ keys, IsNumberKey other :=
        fun other member => typed other (List.mem_append_left [key] member)
      rw [pressAll_append, ih typedBefore, numberText, numberText, List.flatMap_append,
        List.flatMap_singleton]
      rcases typed key (by simp) with rfl | ⟨n, rfl⟩
      · exact press_point_number _ (number_inside keys typedBefore)
      · rw [Key.label, withFirstPoint_digit _ _ (digitGlyph_isDigit n), withoutLeadingZeros_snoc]
        rfl

/-- A digit of the text stands behind a point or is not a zero, so it is left when the zeros at
the head go. -/
def KeepsDigit (text : Text) : Prop :=
  (∃ before after, text = before ++ '.' :: after ∧ ∃ c ∈ after, c.isDigit = true) ∨
    ∃ c ∈ text, c.isDigit = true ∧ c ≠ '0'

theorem KeepsDigit.digit {text : Text} (kept : KeepsDigit text) : ∃ c ∈ text, c.isDigit = true := by
  rcases kept with ⟨before, after, rfl, c, member, digit⟩ | ⟨c, member, digit, _⟩
  · exact ⟨c, by simp [member], digit⟩
  · exact ⟨c, member, digit⟩

/-- Zeros with a point behind them would be left as a point alone. -/
theorem KeepsDigit.not_bare {text : Text} (kept : KeepsDigit text) (count : Nat) :
    text ≠ List.replicate count '0' ++ ['.'] := by
  have zeros : '.' ∉ List.replicate count '0' := fun member =>
    absurd (List.eq_of_mem_replicate member) (by decide)
  rcases kept with ⟨before, after, rfl, c, member, _⟩ | ⟨c, member, digit, nonzero⟩
  · intro same
    obtain ⟨_, _, rfl⟩ := (List.append_cons_inj_of_notMem zeros List.not_mem_nil).mp same.symm
    cases member
  · rintro rfl
    rcases List.mem_append.mp member with inZeros | isPoint
    · exact nonzero (List.eq_of_mem_replicate inZeros)
    · rw [List.mem_singleton.mp isPoint] at digit
      cases digit

/-- A number that is typed from the start stands in the buffer with its first point only and
without the zeros at its head, or as a zero when nothing is left. If it has a digit behind its
point or a nonzero digit, its value is not changed. -/
theorem typed_number (keys : List Key) (typed : ∀ key ∈ keys, IsNumberKey key) :
    pressAll initial keys = withoutLeadingZeros (numberText keys) ∧
      (KeepsDigit (numberText keys) →
        evaluate (pressAll initial keys) = evaluate (numberText keys)) := by
  have buffer := pressAll_number keys typed
  refine ⟨buffer, fun kept => ?_⟩
  have isMantissa : IsMantissa (numberText keys) :=
    ⟨fun c member => isMantissaChar_iff.mp (numberText_inside keys typed c member),
      withFirstPoint_count _, kept.digit⟩
  have whole := evaluate_infixText _ [] isMantissa (by simp)
  have stripped := evaluate_withoutLeadingZeros _ [] isMantissa
    (fun count _ => kept.not_bare count) (by simp)
  rw [buffer]
  simpa [infixText] using stripped.trans whole.symm

theorem typed_number_half :
    let keys : List Key := [.digit 0, .digit 0, .point, .point, .digit 5]
    pressAll initial keys = ['.', '5'] ∧
      evaluate (pressAll initial keys) = evaluate ['0', '0', '.', '5'] := by
  intro keys
  have typed : ∀ key ∈ keys, IsNumberKey key := by simp [keys, IsNumberKey]
  have text : numberText keys = ['0', '0', '.', '5'] := rfl
  have kept : KeepsDigit (numberText keys) :=
    Or.inl ⟨['0', '0'], ['5'], text, '5', List.mem_singleton.mpr rfl, rfl⟩
  have number := typed_number keys typed
  rw [text] at number kept
  exact ⟨number.1, number.2 kept⟩

end Buffer

end DeskCalculator
