import DeskCalculator.Proofs.GroupedTree

/-!
How much the two stacks hold. The operators that wait bind tighter from the first to the latest,
because an operator is put on them only when those that bind as tightly have been placed; with two
precedences no more than two of them wait. The reduction of a tree holds the value of the left part
while it works on the right one, and on the right of an operation everything binds tighter, so the
values it holds at once are bounded by the precedences as well.
-/

namespace DeskCalculator

variable {α : Type}

theorem prefix_append_cases (front first second : List α) (beginning : front <+: first ++ second) :
    front <+: first ∨ ∃ more, front = first ++ more ∧ more <+: second := by
  rcases List.prefix_or_prefix_of_prefix beginning (List.prefix_append first second) with
    inside | ⟨more, rfl⟩
  · exact Or.inl inside
  · exact Or.inr ⟨more, rfl, (List.prefix_append_right_inj first).mp beginning⟩

namespace Postfix

/-- The operators that wait, the latest first, bind looser and looser. -/
def Tightening (waiting : List Operation) : Prop :=
  waiting.Pairwise fun later earlier => earlier.precedence < later.precedence

theorem Tightening.length_lt (op : Operation) (earlier : List Operation)
    (tightening : Tightening (op :: earlier)) : earlier.length < op.precedence := by
  induction earlier generalizing op with
  | nil =>
      have known := precedence_cases op
      rw [List.length_nil]
      omega
  | cons next earlier ih =>
      obtain ⟨below, later⟩ := List.pairwise_cons.mp tightening
      have looser := below next List.mem_cons_self
      have fewer := ih next later
      rw [List.length_cons]
      omega

theorem Tightening.length_le_two (waiting : List Operation) (tightening : Tightening waiting) :
    waiting.length ≤ 2 := by
  cases waiting with
  | nil => exact Nat.zero_le 2
  | cons op earlier =>
      have fewer := tightening.length_lt
      rw [List.length_cons]
      rcases precedence_cases op with loose | tight <;> omega

theorem Tightening.released_looser (waiting : List Operation) (tightening : Tightening waiting)
    (op : Operation) :
    ∀ earlier ∈ waiting.dropWhile (fun earlier => decide (op.precedence ≤ earlier.precedence)),
      earlier.precedence < op.precedence := by
  induction waiting with
  | nil => simp
  | cons latest waiting ih =>
      obtain ⟨below, later⟩ := List.pairwise_cons.mp tightening
      by_cases binds : op.precedence ≤ latest.precedence
      · rw [List.dropWhile_cons_of_pos (by simpa using binds)]
        exact ih later
      · rw [List.dropWhile_cons_of_neg (by simpa using binds)]
        intro earlier member
        rcases List.mem_cons.mp member with rfl | behind
        · omega
        · have looser := below earlier behind
          omega

theorem step_tightening (state next : Arrangement α) (token : Token α)
    (stepped : state.step token = .ok next) (tightening : Tightening state.waiting) :
    Tightening next.waiting := by
  cases token with
  | number x =>
      rw [Arrangement.step] at stepped
      split at stepped
      · cases stepped
        exact tightening
      · cases stepped
  | operator op =>
      rw [Arrangement.step] at stepped
      split at stepped
      · cases stepped
      · cases stepped
        exact List.pairwise_cons.mpr ⟨tightening.released_looser _ op,
          tightening.sublist (List.dropWhile_sublist _)⟩

theorem foldlM_tightening (tokens : List (Token α)) (state final : Arrangement α)
    (run : tokens.foldlM Arrangement.step state = .ok final)
    (tightening : Tightening state.waiting) : Tightening final.waiting := by
  induction tokens generalizing state with
  | nil =>
      cases run
      exact tightening
  | cons token rest ih =>
      obtain ⟨next, stepped, later⟩ := foldlM_cons_ok _ token rest state final run
      exact ih next later (step_tightening state next token stepped tightening)

end Postfix

namespace ExpressionTree

/-- How many values the reduction of a tree holds at once. While it works on the right part it
keeps the value of the left one. -/
def held : ExpressionTree α → Nat
  | leaf _ => 1
  | node _ left right => max left.held (right.held + 1)

theorem held_pos (tree : ExpressionTree α) : 0 < tree.held := by
  induction tree with
  | leaf x => exact Nat.one_pos
  | node op left right leftPos _ => exact Nat.lt_of_lt_of_le leftPos (Nat.le_max_left _ _)

/-- The tighter the root of a grouped tree binds, the fewer values its reduction holds: on the
right of an operation only tighter ones are left. -/
theorem IsGrouped.held_le {tree : ExpressionTree α} (grouped : tree.IsGrouped) (level : Nat)
    (inside : level ≤ 3) (binds : ∀ root ∈ tree.root?, level ≤ root.precedence) :
    tree.held + level ≤ 4 := by
  induction grouped generalizing level with
  | leaf x =>
      rw [held]
      omega
  | @node op left right leftBinds rightBinds _ _ leftHeld rightHeld =>
      have root := binds op rfl
      have high : op.precedence ≤ 2 := by
        rcases Postfix.precedence_cases op with loose | tight <;> omega
      have onLeft := leftHeld op.precedence (by omega) leftBinds
      have onRight := rightHeld (op.precedence + 1) (by omega) rightBinds
      rw [held]
      omega

-- The induction is on the tree. The right part is reduced above the value of the left one, so the
-- stack underneath varies.
theorem foldlM_beginning (apply : Operation → α → α → α) (tree : ExpressionTree α)
    (front : List (Token α)) (beginning : front <+: tree.postorder) (stack : List α) :
    ∃ above, front.foldlM (Postfix.reduceStep apply) stack = .ok (above ++ stack) ∧
      above.length ≤ tree.held := by
  induction tree generalizing front stack with
  | leaf x =>
      rcases List.prefix_cons_iff.mp beginning with rfl | ⟨rest, rfl, none⟩
      · exact ⟨[], rfl, Nat.zero_le 1⟩
      · rw [List.prefix_nil.mp none]
        exact ⟨[x], rfl, Nat.le_refl 1⟩
  | node op left right leftRun rightRun =>
      rw [postorder, ← List.append_assoc] at beginning
      rcases List.prefix_concat_iff.mp beginning with rfl | before
      · refine ⟨[(node op left right).value apply], ?_, (node op left right).held_pos⟩
        rw [List.append_assoc]
        exact (node op left right).reduceStep_postorder apply stack
      · rcases prefix_append_cases front _ _ before with inLeft | ⟨more, rfl, inRight⟩
        · obtain ⟨above, run, few⟩ := leftRun front inLeft stack
          exact ⟨above, run, Nat.le_trans few (Nat.le_max_left _ _)⟩
        · obtain ⟨above, run, few⟩ := rightRun more inRight (left.value apply :: stack)
          refine ⟨above ++ [left.value apply], ?_, ?_⟩
          · rw [List.foldlM_append, left.reduceStep_postorder apply stack]
            exact run.trans (by simp)
          · rw [List.length_append, List.length_singleton]
            exact Nat.le_trans (Nat.succ_le_succ few) (Nat.le_max_right _ _)

end ExpressionTree

namespace Postfix

theorem reduceStep_operands (apply : Operation → α → α → α) (stack next : List α)
    (op : Operation) (run : [.operator op].foldlM (reduceStep apply) stack = .ok next) :
    2 ≤ stack.length := by
  match stack with
  | [] => cases run
  | [_] => cases run
  | _ :: _ :: below => simp

/-- The arrangement never keeps more than two operators waiting, each of which binds tighter than
the one before it, also while they are placed one at a time. The reduction of what it makes never
holds more than three values, and never fewer than two when it meets an operator. -/
theorem stacks_bounded (tokens : List (Token α)) :
    (∀ front state, front <+: tokens → front.foldlM Arrangement.step .start = .ok state →
      ∀ left, left <:+ state.waiting → Tightening left ∧ left.length ≤ 2) ∧
    ∀ ordered, ofInfix tokens = .ok ordered →
      ∀ (apply : Operation → α → α → α) (front : List (Token α)), front <+: ordered →
        ∃ stack, front.foldlM (reduceStep apply) [] = .ok stack ∧ stack.length ≤ 3 ∧
          ∀ op rest, ordered = front ++ .operator op :: rest → 2 ≤ stack.length := by
  constructor
  · intro front state _ run left ending
    have waiting := foldlM_tightening front .start state run .nil
    have remaining : Tightening left := waiting.sublist ending.sublist
    exact ⟨remaining, remaining.length_le_two⟩
  · intro ordered arranged apply front beginning
    obtain ⟨tree, grouped, _, rfl⟩ := grouped_of_ofInfix tokens ordered arranged
    have few := grouped.held_le 1 (by omega) fun root _ => by
      rcases precedence_cases root with loose | tight <;> omega
    obtain ⟨stack, run, held⟩ := tree.foldlM_beginning apply front beginning []
    rw [List.append_nil] at run
    refine ⟨stack, run, by omega, ?_⟩
    intro op rest split
    -- The list goes on behind the operator, so the step that reads it succeeds.
    have longer : front ++ [.operator op] <+: tree.postorder := ⟨rest, by rw [split]; simp⟩
    obtain ⟨next, later, _⟩ := tree.foldlM_beginning apply _ longer []
    rw [List.foldlM_append, run] at later
    exact reduceStep_operands apply stack _ op later

-- Eight less two times five: before the product both stacks are as full as they get.
theorem stacks_bounded_product :
    let number (n : Nat) : Token Double := .number (.ofRat false n)
    let tokens := [number 8, .operator .subtract, number 2, .operator .multiply, number 5]
    let ordered := [number 8, number 2, number 5, .operator .multiply, .operator .subtract]
    tokens.foldlM Arrangement.step .start =
        .ok ⟨[number 5, number 2, number 8], [.multiply, .subtract], false⟩ ∧
      Tightening [.multiply, .subtract] ∧ Tightening [.subtract] ∧
      ofInfix tokens = .ok ordered ∧
      ∃ stack, [number 8, number 2, number 5].foldlM (reduceStep Operation.apply) [] = .ok stack ∧
        stack.length ≤ 3 ∧ 2 ≤ stack.length := by
  intro number tokens ordered
  have read : tokens.foldlM Arrangement.step .start =
      .ok ⟨[number 5, number 2, number 8], [.multiply, .subtract], false⟩ := rfl
  have arranged : ofInfix tokens = .ok ordered := rfl
  obtain ⟨waiting, reduced⟩ := stacks_bounded tokens
  have full := waiting tokens _ (List.prefix_refl tokens) read
  obtain ⟨stack, run, most, least⟩ := reduced ordered arranged Operation.apply
    [number 8, number 2, number 5] ⟨[.operator .multiply, .operator .subtract], rfl⟩
  exact ⟨read, (full _ (List.suffix_refl _)).1, (full _ ⟨[.multiply], rfl⟩).1, arranged, stack,
    run, most, least .multiply [.operator .subtract] rfl⟩

end Postfix

end DeskCalculator
