import DeskCalculator.Proofs.ExpressionTree

/-!
Which lists of tokens are in postfix form. A number deepens the stack by one value and an
operator makes it one shallower, so the counts of both decide whether a list can be reduced:
in front of every operator two values must be left, and at the end a single one. Such a list
writes down exactly one tree, and the value is the value of that tree.
-/

namespace DeskCalculator.Postfix

variable {α : Type}

def operators (tokens : List (Token α)) : Nat := tokens.countP Token.isOperator

def numbers (tokens : List (Token α)) : Nat := tokens.countP fun token => !token.isOperator

/-- No operator lacks an operand when the list starts above `depth` values. -/
def Supplied (depth : Nat) (tokens : List (Token α)) : Prop :=
  ∀ front, front <+: tokens → front ≠ [] → operators front < depth + numbers front

/-- In every beginning of the list the numbers outnumber the operators, and in the whole list
by exactly one. -/
structure IsPostfix (tokens : List (Token α)) : Prop where
  ahead : ∀ front, front <+: tokens → front ≠ [] → operators front < numbers front
  single : numbers tokens = operators tokens + 1

section Counts

variable (x : α) (op : Operation) (rest : List (Token α))

@[simp] theorem operators_nil : operators ([] : List (Token α)) = 0 := rfl

@[simp] theorem numbers_nil : numbers ([] : List (Token α)) = 0 := rfl

@[simp] theorem operators_number : operators (.number x :: rest) = operators rest := by
  simp [operators, Token.isOperator]

@[simp] theorem operators_operator :
    operators (.operator op :: rest) = operators rest + 1 := by
  simp [operators, List.countP_cons, Token.isOperator]

@[simp] theorem numbers_number : numbers (.number x :: rest) = numbers rest + 1 := by
  simp [numbers, Token.isOperator]

@[simp] theorem numbers_operator : numbers (.operator op :: rest) = numbers rest := by
  simp [numbers, Token.isOperator]

end Counts

theorem supplied_nil (depth : Nat) : Supplied depth ([] : List (Token α)) := by
  intro front beginning present
  exact absurd (List.prefix_nil.mp beginning) present

/-- A condition on the non-empty beginnings of a list, said of its first member and the rest. -/
theorem beginnings_cons {holds : List (Token α) → Prop} (token : Token α)
    (rest : List (Token α)) :
    (∀ front, front <+: token :: rest → front ≠ [] → holds front) ↔
      holds [token] ∧ ∀ front, front <+: rest → front ≠ [] → holds (token :: front) := by
  constructor
  · intro all
    refine ⟨all [token] ⟨rest, rfl⟩ (by simp), ?_⟩
    intro front beginning _
    exact all (token :: front) (List.cons_prefix_cons.mpr ⟨rfl, beginning⟩) (by simp)
  · rintro ⟨first, later⟩ front beginning present
    cases front with
    | nil => exact absurd rfl present
    | cons other front =>
        obtain ⟨rfl, behind⟩ := List.cons_prefix_cons.mp beginning
        cases front with
        | nil => exact first
        | cons next front => exact later _ behind (by simp)

theorem supplied_number (depth : Nat) (x : α) (rest : List (Token α)) :
    Supplied depth (.number x :: rest) ↔ Supplied (depth + 1) rest := by
  rw [Supplied, beginnings_cons]
  constructor
  · rintro ⟨_, later⟩ front beginning present
    have enough := later front beginning present
    simp only [operators_number, numbers_number] at enough
    omega
  · intro later
    refine ⟨by simp, ?_⟩
    intro front beginning present
    have enough := later front beginning present
    simp only [operators_number, numbers_number]
    omega

theorem supplied_operator (depth : Nat) (op : Operation) (rest : List (Token α)) :
    Supplied depth (.operator op :: rest) ↔ 2 ≤ depth ∧ Supplied (depth - 1) rest := by
  rw [Supplied, beginnings_cons]
  have alone : operators [.operator (α := α) op] < depth + numbers [.operator (α := α) op] ↔
      2 ≤ depth := by
    simp only [operators_operator, numbers_operator, operators_nil, numbers_nil]
    omega
  rw [alone]
  refine and_congr_right fun deep => ?_
  constructor
  · intro later front beginning present
    have enough := later front beginning present
    simp only [operators_operator, numbers_operator] at enough
    omega
  · intro later front beginning present
    have enough := later front beginning present
    simp only [operators_operator, numbers_operator]
    omega

section Reduction

variable (apply : Operation → α → α → α)

-- The induction is on the tokens still to come; the values under them are whatever the tokens
-- before left, so the stack varies.
theorem reduceStep_run (tokens : List (Token α)) (stack : List α) :
    (Supplied stack.length tokens →
      ∃ final, tokens.foldlM (reduceStep apply) stack = .ok final ∧
        final.length + operators tokens = stack.length + numbers tokens) ∧
    (¬Supplied stack.length tokens →
      tokens.foldlM (reduceStep apply) stack = .error .malformedExpression) := by
  induction tokens generalizing stack with
  | nil =>
      refine ⟨fun _ => ⟨stack, rfl, by simp⟩, fun lacking => ?_⟩
      exact absurd (supplied_nil _) lacking
  | cons token rest ih =>
      cases token with
      | number x =>
          obtain ⟨runs, fails⟩ := ih (x :: stack)
          rw [supplied_number]
          refine ⟨fun supplied => ?_, fails⟩
          obtain ⟨final, run, depth⟩ := runs supplied
          refine ⟨final, run, ?_⟩
          simp only [operators_number, numbers_number, List.length_cons] at depth ⊢
          omega
      | operator op =>
          rw [supplied_operator]
          match stack with
          | [] => exact ⟨fun supplied => absurd supplied.1 (by simp), fun _ => rfl⟩
          | [_] => exact ⟨fun supplied => absurd supplied.1 (by simp), fun _ => rfl⟩
          | right :: left :: below =>
              obtain ⟨runs, fails⟩ := ih (apply op left right :: below)
              refine ⟨fun supplied => ?_, fun lacking => fails fun supplied => ?_⟩
              · obtain ⟨final, run, depth⟩ := runs supplied.2
                refine ⟨final, run, ?_⟩
                simp only [operators_operator, numbers_operator, List.length_cons] at depth ⊢
                omega
              · exact lacking ⟨by simp, supplied⟩

/-- The tokens that write down the trees of a stack, the deepest first. -/
def spelled (stack : List (ExpressionTree α)) : List (Token α) :=
  stack.reverse.flatMap ExpressionTree.postorder

/-- One step of reduction keeps the values those of trees, and the trees spell one token
more. -/
theorem reduceStep_trees (trees : List (ExpressionTree α)) (token : Token α) (next : List α)
    (stepped : reduceStep apply (trees.map (ExpressionTree.value apply)) token = .ok next) :
    ∃ grown : List (ExpressionTree α), next = grown.map (ExpressionTree.value apply) ∧
      spelled grown = spelled trees ++ [token] := by
  cases token with
  | number x =>
      cases stepped
      exact ⟨.leaf x :: trees, rfl, by simp [spelled, ExpressionTree.postorder]⟩
  | operator op =>
      rcases trees with _ | ⟨right, _ | ⟨left, below⟩⟩
      · cases stepped
      · cases stepped
      · cases stepped
        exact ⟨.node op left right :: below, rfl, by
          simp [spelled, ExpressionTree.postorder]⟩

theorem foldlM_trees (tokens : List (Token α)) (trees : List (ExpressionTree α))
    (final : List α)
    (run : tokens.foldlM (reduceStep apply) (trees.map (ExpressionTree.value apply)) =
      .ok final) :
    ∃ grown : List (ExpressionTree α), final = grown.map (ExpressionTree.value apply) ∧
      spelled grown = spelled trees ++ tokens := by
  induction tokens generalizing trees with
  | nil =>
      cases run
      exact ⟨trees, rfl, by simp⟩
  | cons token rest ih =>
      obtain ⟨next, stepped, later⟩ := foldlM_cons_ok _ token rest _ final run
      obtain ⟨grown, rfl, spelledGrown⟩ := reduceStep_trees apply trees token next stepped
      obtain ⟨last, same, spelledLast⟩ := ih grown later
      exact ⟨last, same, by rw [spelledLast, spelledGrown, List.append_assoc]; rfl⟩

theorem reduce_of_single (tokens : List (Token α)) (x : α)
    (run : tokens.foldlM (reduceStep apply) [] = .ok [x]) : reduce apply tokens = .ok x := by
  rw [reduce, run]
  rfl

theorem reduce_of_length (tokens : List (Token α)) (final : List α)
    (run : tokens.foldlM (reduceStep apply) [] = .ok final) (several : final.length ≠ 1) :
    reduce apply tokens = .error .malformedExpression := by
  rw [reduce, run]
  rcases final with _ | ⟨x, _ | ⟨next, others⟩⟩
  · rfl
  · exact absurd rfl several
  · rfl

theorem reduce_of_shapeless (tokens : List (Token α)) (shapeless : ¬IsPostfix tokens) :
    reduce apply tokens = .error .malformedExpression := by
  obtain ⟨runs, fails⟩ := reduceStep_run apply tokens []
  by_cases supplied : Supplied 0 tokens
  · obtain ⟨final, run, depth⟩ := runs supplied
    refine reduce_of_length apply tokens final run fun single => shapeless ⟨?_, ?_⟩
    · simpa [Supplied] using supplied
    · simp only [single, List.length_nil] at depth
      omega
  · rw [reduce, fails supplied]
    rfl

/-- A list in postfix form writes down a tree, and is reduced to its value. -/
theorem tree_of_shape (tokens : List (Token α)) (isPostfix : IsPostfix tokens) :
    ∃ tree : ExpressionTree α, tree.postorder = tokens ∧
      reduce apply tokens = .ok (tree.value apply) := by
  have supplied : Supplied 0 tokens := by simpa [Supplied] using isPostfix.ahead
  obtain ⟨final, run, depth⟩ := (reduceStep_run apply tokens []).1 supplied
  obtain ⟨trees, rfl, spelledTrees⟩ := foldlM_trees apply tokens [] final run
  have single := isPostfix.single
  match trees with
  | [] =>
      simp only [List.map_nil, List.length_nil] at depth
      omega
  | [tree] =>
      have same : tree.postorder = tokens := by simpa [spelled] using spelledTrees
      exact ⟨tree, same, reduce_of_single apply tokens _ run⟩
  | _ :: _ :: _ =>
      simp only [List.map_cons, List.length_cons, List.length_nil] at depth
      omega

theorem reduce_ok_iff (tokens : List (Token α)) :
    (∃ x, reduce apply tokens = .ok x) ↔ IsPostfix tokens := by
  constructor
  · rintro ⟨x, reduced⟩
    by_cases isPostfix : IsPostfix tokens
    · exact isPostfix
    · rw [reduce_of_shapeless apply tokens isPostfix] at reduced
      cases reduced
  · intro isPostfix
    obtain ⟨tree, _, reduced⟩ := tree_of_shape apply tokens isPostfix
    exact ⟨_, reduced⟩

theorem tree_of_reduce (tokens : List (Token α)) (x : α)
    (reduced : reduce apply tokens = .ok x) :
    ∃ tree : ExpressionTree α, tree.postorder = tokens ∧ tree.value apply = x := by
  obtain ⟨tree, written, value⟩ :=
    tree_of_shape apply tokens ((reduce_ok_iff apply tokens).mp ⟨x, reduced⟩)
  rw [reduced] at value
  exact ⟨tree, written, (Except.ok.inj value).symm⟩

end Reduction

/-- Exactly the lists in postfix form are reduced. Each writes down one tree, of which the
result is the value, and two of them with an operator behind are again one. -/
theorem reduce_exact (apply : Operation → α → α → α) (tokens : List (Token α)) :
    ((∃ x, reduce apply tokens = .ok x) ↔ IsPostfix tokens) ∧
    (¬IsPostfix tokens → reduce apply tokens = .error .malformedExpression) ∧
    (∀ x, reduce apply tokens = .ok x →
      ∃ tree : ExpressionTree α, (∀ other, other.postorder = tokens ↔ other = tree) ∧
        tree.value apply = x) ∧
    ∀ more x y op, reduce apply tokens = .ok x → reduce apply more = .ok y →
      reduce apply (tokens ++ more ++ [.operator op]) = .ok (apply op x y) := by
  refine ⟨reduce_ok_iff apply tokens, reduce_of_shapeless apply tokens, ?_, ?_⟩
  · intro x reduced
    obtain ⟨tree, written, value⟩ := tree_of_reduce apply tokens x reduced
    refine ⟨tree, fun other => ⟨fun otherWritten => ?_, ?_⟩, value⟩
    · exact other.postorder_injective tree (otherWritten.trans written.symm)
    · rintro rfl
      exact written
  · intro more x y op first second
    obtain ⟨left, rfl, rfl⟩ := tree_of_reduce apply tokens x first
    obtain ⟨right, rfl, rfl⟩ := tree_of_reduce apply more y second
    have joined := (ExpressionTree.node op left right).reduce_postorder apply
    rwa [ExpressionTree.postorder, ← List.append_assoc] at joined

-- Eight less three, and that times two; an operator in front of its operand is refused.
theorem reduce_exact_product :
    let difference : List (Token Double) :=
      [.number (.ofRat false 8), .number (.ofRat false 3), .operator .subtract]
    let early : List (Token Double) :=
      [.number (.ofRat false 8), .operator .subtract, .number (.ofRat false 3)]
    reduce Operation.apply (difference ++ [.number (.ofRat false 2)] ++ [.operator .multiply]) =
        .ok ((.ofRat false 8 - .ofRat false 3) * .ofRat false 2) ∧
      (∃ tree : ExpressionTree Double, ∀ other, other.postorder = difference ↔ other = tree) ∧
      reduce Operation.apply early = .error .malformedExpression := by
  intro difference early
  have reduced : reduce Operation.apply difference = .ok (.ofRat false 8 - .ofRat false 3) := rfl
  have shapeless : ¬IsPostfix early := by
    intro isPostfix
    have enough := isPostfix.ahead (early.take 2) (early.take_prefix 2) (by simp [early])
    simp [early] at enough
  obtain ⟨_, _, written, joined⟩ := reduce_exact Operation.apply difference
  obtain ⟨tree, unique, _⟩ := written _ reduced
  exact ⟨joined _ _ _ .multiply reduced rfl, ⟨tree, unique⟩,
    (reduce_exact Operation.apply early).2.1 shapeless⟩

end DeskCalculator.Postfix
