import DeskCalculator.Proofs.ReachableBuffer

/-!
The keys that edit what is on the display. On any text they may do odd things; on the buffers
that keys reach they undo each other, because nothing that starts with an operator ever stands
behind the sign at the head of a buffer. For the same reason an operator key takes the place of
the one before it, and of a run of them only the last one counts.
-/

namespace DeskCalculator.Buffer

def Reachable (buffer : Buffer) : Prop := ∃ keys, pressAll initial keys = buffer

theorem Reachable.wellFormed {buffer : Buffer} (reachable : Reachable buffer) :
    WellFormed buffer := by
  obtain ⟨keys, rfl⟩ := reachable
  exact pressAll_wellFormed keys initial initial_wellFormed

theorem Reachable.press {buffer : Buffer} (reachable : Reachable buffer) (key : Key) :
    Reachable (press buffer key) := by
  obtain ⟨keys, rfl⟩ := reachable
  exact ⟨keys ++ [key], pressAll_append initial keys [key]⟩

theorem toggleSign_signed (rest : Buffer) (present : rest ≠ []) :
    toggleSign ('-' :: rest) = rest := by
  rw [toggleSign, if_pos rfl, if_neg (by simpa using present)]

theorem toggleSign_unsigned (buffer : Buffer) (present : buffer ≠ [])
    (unsigned : buffer.head? ≠ some '-') : toggleSign buffer = '-' :: buffer := by
  cases buffer with
  | nil => exact absurd rfl present
  | cons c rest => rw [toggleSign, if_neg (by simpa using unsigned)]

theorem WellFormed.unsigned_tail {rest : Buffer} (wellFormed : WellFormed ('-' :: rest)) :
    rest.head? ≠ some '-' := by
  intro second
  exact (List.isChain_cons.mp wellFormed.apart).1 '-' second ⟨by decide, by decide⟩

theorem toggleSign_toggleSign (buffer : Buffer) (wellFormed : WellFormed buffer)
    (notSign : buffer ≠ ['-']) : toggleSign (toggleSign buffer) = buffer := by
  by_cases unsigned : buffer.head? = some '-'
  · obtain ⟨rest, rfl⟩ := List.head?_eq_some_iff.mp unsigned
    have present : rest ≠ [] := by
      rintro rfl
      exact notSign rfl
    rw [toggleSign_signed rest present,
      toggleSign_unsigned rest present wellFormed.unsigned_tail]
  · rw [toggleSign_unsigned buffer wellFormed.nonempty unsigned,
      toggleSign_signed buffer wellFormed.nonempty]

/-- The sign key undoes itself on every buffer that keys reach but for a sign alone, which it
turns into the zero. It leaves something on the display, and no two operators side by side. -/
theorem sign_involutive (buffer : Buffer) (reachable : Reachable buffer) :
    (buffer ≠ ['-'] → press (press buffer .sign) .sign = buffer) ∧
    (buffer = ['-'] → press buffer .sign = initial) ∧
    press buffer .sign ≠ [] ∧
    ∀ before c next after, press buffer .sign = before ++ c :: next :: after →
      ¬ (isOperator c = true ∧ isOperator next = true) := by
  have toggled := (reachable.press .sign).wellFormed
  refine ⟨toggleSign_toggleSign buffer reachable.wellFormed, ?_, toggled.nonempty, ?_⟩
  · rintro rfl
    rfl
  · intro before c next after split
    have apart := toggled.apart
    rw [split] at apart
    exact (List.isChain_append_cons_cons.mp apart).2.1

-- A negative number with a difference begun, and the sign that is left when the number is taken
-- back.
theorem sign_involutive_difference :
    let buffer : Buffer := ['-', '5', '-']
    Reachable buffer ∧ press (press buffer .sign) .sign = buffer ∧
      Reachable ['-'] ∧ press ['-'] .sign = initial := by
  intro buffer
  have reachable : Reachable buffer := ⟨[.digit 5, .sign, .operator .minus], rfl⟩
  have signReachable : Reachable ['-'] := ⟨[.digit 5, .sign, .backspace], rfl⟩
  exact ⟨reachable, (sign_involutive buffer reachable).1 (by decide), signReachable,
    (sign_involutive _ signReachable).2.1 rfl⟩

/-- The operator that was pressed first is replaced, wherever it was put. -/
theorem pressOperator_pressOperator (buffer : Buffer) (wellFormed : WellFormed buffer)
    (first second : Operator) :
    pressOperator (pressOperator buffer first) second = pressOperator buffer second := by
  have replaced (front : Buffer) (present : front ≠ []) :
      pressOperator (front ++ [first.glyph]) second = front ++ [second.glyph] :=
    pressOperator_replaced front first.glyph second present (isOperator_glyph first)
  rcases wellFormed.ending_cases with rfl | free | ⟨front, last, rfl, operator, present, _⟩
  · rw [pressOperator_sign first]
  · rw [pressOperator_added buffer first free, pressOperator_added buffer second free,
      replaced buffer wellFormed.nonempty]
  · rw [pressOperator_replaced front last first present operator,
      pressOperator_replaced front last second present operator, replaced front present]

theorem pressAll_operators (ops : List Operator) (op : Operator) (buffer : Buffer)
    (wellFormed : WellFormed buffer) :
    pressAll buffer ((ops ++ [op]).map .operator) = pressOperator buffer op := by
  induction ops generalizing buffer with
  | nil => rfl
  | cons first rest ih =>
      have later := ih (pressOperator buffer first)
        (pressOperator_wellFormed buffer wellFormed first)
      rw [pressOperator_pressOperator buffer wellFormed] at later
      exact later

/-- Of several operator keys only the last one counts. It takes the place of the operator at the
end of the buffer or is added where there is none, but a sign alone stays. -/
theorem last_operator_counts (buffer : Buffer) (reachable : Reachable buffer)
    (ops : List Operator) (op : Operator) :
    pressAll buffer ((ops ++ [op]).map .operator) = press buffer (.operator op) ∧
    (buffer = ['-'] → press buffer (.operator op) = ['-']) ∧
    (∀ front last, buffer = front ++ [last] → isOperator last = true → buffer ≠ ['-'] →
      press buffer (.operator op) = front ++ [op.glyph]) ∧
    ((∀ front last, buffer = front ++ [last] → isOperator last = false) →
      press buffer (.operator op) = buffer ++ [op.glyph]) := by
  have wellFormed := reachable.wellFormed
  refine ⟨pressAll_operators ops op buffer wellFormed, ?_, ?_, ?_⟩
  · rintro rfl
    exact pressOperator_sign op
  · rintro front last rfl operator notSign
    have present : front ≠ [] := by
      rintro rfl
      rw [wellFormed.head last rfl operator] at notSign
      exact notSign rfl
    exact pressOperator_replaced front last op present operator
  · intro notOperator
    have split := List.dropLast_concat_getLast wellFormed.nonempty
    have free := notOperator _ _ split.symm
    rw [← endsInOperator_concat buffer.dropLast, split] at free
    exact pressOperator_added buffer op free

-- A difference of a negative number turned into a product, and the sign alone.
theorem last_operator_counts_product :
    let buffer : Buffer := ['-', '5', '-']
    Reachable buffer ∧
      pressAll buffer [.operator .plus, .operator .modulo, .operator .times] = ['-', '5', 'x'] ∧
      Reachable ['-'] ∧ pressAll ['-'] [.operator .plus, .operator .times] = ['-'] := by
  intro buffer
  have reachable : Reachable buffer := ⟨[.digit 5, .sign, .operator .minus], rfl⟩
  have signReachable : Reachable ['-'] := ⟨[.digit 5, .sign, .backspace], rfl⟩
  have counts := last_operator_counts buffer reachable [.plus, .modulo] .times
  have signCounts := last_operator_counts _ signReachable [.plus] .times
  exact ⟨reachable, counts.1.trans (counts.2.2.1 ['-', '5'] '-' rfl rfl (by decide)),
    signReachable, signCounts.1.trans (signCounts.2.1 rfl)⟩

end DeskCalculator.Buffer
