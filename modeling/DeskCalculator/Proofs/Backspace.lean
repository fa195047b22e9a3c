import DeskCalculator.Proofs.Typing

/-!
Typing taken back. A run of backspaces leaves the beginning of the buffer, or the zero where
nothing would be left of it. As many backspaces as keys were typed therefore give back the buffer
that was typed on, and also the zero that the first digit took the place of.
-/

namespace DeskCalculator.Buffer

theorem backspace_concat (front : Buffer) (c : Char) (present : front ≠ []) :
    backspace (front ++ [c]) = front := by
  rw [backspace, List.dropLast_concat, if_neg (by simpa using present)]

theorem backspace_take (buffer : Buffer) (count : Nat) (inside : count < buffer.length) :
    backspace (buffer.take (count + 1)) = if count = 0 then initial else buffer.take count := by
  have split : buffer.take (count + 1) = buffer.take count ++ [buffer[count]] :=
    (List.take_append_getElem inside).symm
  rw [split]
  by_cases none : count = 0
  · subst none
    rfl
  · rw [if_neg none, backspace_concat]
    intro empty
    have length := congrArg List.length empty
    rw [List.length_take_of_le (Nat.le_of_lt inside), List.length_nil] at length
    exact none length

/-- So many backspaces leave the characters in front of them, and the zero in place of none. -/
theorem pressAll_backspaces (buffer : Buffer) (present : buffer ≠ []) (count : Nat) :
    pressAll buffer (List.replicate count .backspace) =
      if count < buffer.length then buffer.take (buffer.length - count) else initial := by
  induction count with
  | zero =>
      rw [if_pos (List.length_pos_iff.mpr present), Nat.sub_zero, List.take_length]
      rfl
  | succ count ih =>
      rw [List.replicate_succ', pressAll_append, ih]
      change backspace _ = _
      by_cases inside : count < buffer.length
      · have left : buffer.length - count = buffer.length - (count + 1) + 1 := by omega
        rw [if_pos inside, left, backspace_take buffer _ (by omega)]
        by_cases more : count + 1 < buffer.length
        · rw [if_neg (by omega), if_pos more]
        · rw [if_pos (by omega), if_neg more]
      · rw [if_neg inside, if_neg (by omega)]
        rfl

theorem pressAll_backspaces_ne_nil (buffer : Buffer) (present : buffer ≠ []) (count : Nat) :
    pressAll buffer (List.replicate count .backspace) ≠ [] := by
  rw [pressAll_backspaces buffer present count]
  split
  · rename_i inside
    rw [← List.length_pos_iff, List.length_take]
    omega
  · exact List.cons_ne_nil '0' []

theorem pressAll_backspaces_append (buffer more : Buffer) (present : buffer ≠ []) :
    pressAll (buffer ++ more) (List.replicate more.length .backspace) = buffer := by
  have length := List.length_pos_iff.mpr present
  rw [pressAll_backspaces _ (List.append_ne_nil_of_left_ne_nil present more), List.length_append,
    if_pos (by omega), Nat.add_sub_cancel, List.take_left]

theorem press_digit (buffer : Buffer) (n : Nat) (started : buffer ≠ initial) :
    press buffer (.digit n) = buffer ++ [Key.digitGlyph n] := by
  rw [press, typingBase, if_neg started]

theorem pressAll_digits (digits : List Nat) (buffer : Buffer) (present : buffer ≠ [])
    (started : buffer ≠ initial) :
    pressAll buffer (digits.map .digit) = buffer ++ digits.map Key.digitGlyph := by
  induction digits generalizing buffer with
  | nil => exact (List.append_nil buffer).symm
  | cons n rest ih =>
      have longer : buffer ++ [Key.digitGlyph n] ≠ initial := fun same =>
        present (List.append_inj_left' same rfl)
      have later := ih (buffer ++ [Key.digitGlyph n]) (by simp) longer
      rw [List.append_assoc, ← press_digit buffer n started] at later
      exact later

/-- Each digit is one character more at most; the zero at the start gives way to it. -/
theorem length_pressAll_digits_le (digits : List Nat) (buffer : Buffer) :
    (pressAll buffer (digits.map .digit)).length ≤ buffer.length + digits.length := by
  induction digits generalizing buffer with
  | nil => exact Nat.le_refl _
  | cons n rest ih =>
      have base : (typingBase buffer).length ≤ buffer.length := by
        rw [typingBase]
        split
        · exact Nat.zero_le _
        · exact Nat.le_refl _
      have later := ih (press buffer (.digit n))
      rw [press, List.length_append, List.length_singleton] at later
      rw [List.length_cons]
      exact Nat.le_trans later (by omega)

theorem pressAll_digits_ne_nil (digits : List Nat) (buffer : Buffer) (present : buffer ≠ []) :
    pressAll buffer (digits.map .digit) ≠ [] := by
  induction digits generalizing buffer with
  | nil => exact present
  | cons n rest ih => exact ih (press buffer (.digit n)) (by simp [press])

theorem digits_taken_back (buffer : Buffer) (present : buffer ≠ []) (digits : List Nat) :
    pressAll (pressAll buffer (digits.map .digit)) (List.replicate digits.length .backspace) =
      buffer := by
  by_cases start : buffer = initial
  · subst start
    cases digits with
    | nil => rfl
    | cons n rest =>
        -- The first digit takes the place of the zero, so there are more backspaces than digits
        -- that are left, or as many.
        have short := length_pressAll_digits_le rest [Key.digitGlyph n]
        have filled := pressAll_digits_ne_nil rest [Key.digitGlyph n] (List.cons_ne_nil _ _)
        have taken := pressAll_backspaces _ filled (rest.length + 1)
        rw [if_neg (by rw [List.length_singleton] at short; omega)] at taken
        exact taken
  · have typed := pressAll_digits digits buffer present start
    have taken := pressAll_backspaces_append buffer (digits.map Key.digitGlyph) present
    rw [List.length_map] at taken
    rw [typed, taken]

theorem operator_taken_back (buffer : Buffer) (present : buffer ≠ [])
    (free : endsInOperator buffer = false) (op : Operator) :
    press (press buffer (.operator op)) .backspace = buffer := by
  change backspace (pressOperator buffer op) = buffer
  rw [pressOperator_added buffer op free, backspace_concat buffer op.glyph present]

theorem point_taken_back (buffer : Buffer) (present : buffer ≠ [])
    (takes : takesPoint buffer = true) : press (press buffer .point) .backspace = buffer := by
  by_cases start : buffer = initial
  · subst start
    rfl
  · have pointed : press buffer .point = buffer ++ ['.'] := by
      simp only [press, typingBase, if_neg start, takes, if_true]
    rw [pointed]
    exact backspace_concat buffer '.' present

/-- Backspaces leave the beginning of the buffer or the zero, and never nothing. They take back
as many digits, an operator that was added, and a point that was added. -/
theorem backspace_undoes_typing (buffer : Buffer) (present : buffer ≠ []) :
    (∀ count, pressAll buffer (List.replicate count .backspace) =
        if count < buffer.length then buffer.take (buffer.length - count) else initial) ∧
    (∀ count, pressAll buffer (List.replicate count .backspace) ≠ []) ∧
    (∀ digits : List Nat, pressAll buffer
        (digits.map .digit ++ List.replicate digits.length .backspace) = buffer) ∧
    (∀ op, (∀ c ∈ buffer.getLast?, isOperator c = false) →
      pressAll buffer [.operator op, .backspace] = buffer) ∧
    ('.' ∉ segment buffer → 'e' ∉ segment buffer → 'E' ∉ segment buffer →
      pressAll buffer [.point, .backspace] = buffer) := by
  refine ⟨pressAll_backspaces buffer present, pressAll_backspaces_ne_nil buffer present,
    ?_, ?_, ?_⟩
  · intro digits
    rw [pressAll_append]
    exact digits_taken_back buffer present digits
  · intro op notOperator
    have last := List.getLast?_eq_some_getLast present
    have free : endsInOperator buffer = false := by
      rw [endsInOperator, last]
      exact notOperator _ last
    exact operator_taken_back buffer present free op
  · intro noPoint noMark noCapital
    apply point_taken_back buffer present
    rw [takesPoint, Bool.not_eq_true', List.any_eq_false]
    intro c member taken
    rw [Bool.or_eq_true, beq_iff_eq, isExponentMark_iff] at taken
    rcases taken with rfl | rfl | rfl
    · exact noPoint member
    · exact noMark member
    · exact noCapital member

theorem backspace_undoes_typing_zeros :
    initial ≠ [] ∧
      pressAll initial [.digit 0, .digit 0, .digit 7, .backspace, .backspace, .backspace] =
        initial ∧
      ['5', '÷'] ≠ [] ∧ pressAll ['5', '÷'] [.backspace] = ['5'] := by
  have zero : initial ≠ [] := List.cons_ne_nil '0' []
  have quotient : ['5', '÷'] ≠ [] := List.cons_ne_nil '5' ['÷']
  exact ⟨zero, (backspace_undoes_typing initial zero).2.2.1 [0, 0, 7], quotient,
    (backspace_undoes_typing _ quotient).1 1⟩

end DeskCalculator.Buffer
