import DeskCalculator.Proofs.ExpressionTree
import DeskCalculator.Proofs.Lists

/-!
What the order of operations means. An infix list is an operand followed by pairs of an
operator and an operand; cut at every addition and subtraction it falls into runs of
multiplications and divisions, each of which is computed from the left before the runs are
combined from the left. The postfix order of the list is the tree built that way, whatever
the length of the list and the mixture of operators.
-/

namespace DeskCalculator.Postfix

variable {α : Type}

def infixTokens (first : α) (rest : List (Operation × α)) : List (Token α) :=
  .number first :: rest.flatMap fun pair => [.operator pair.1, .number pair.2]

/-- The pairs up to the first addition or subtraction, and for each of these its operator,
the operand that starts a new run and the pairs of that run. -/
def runs : List (Operation × α) →
    List (Operation × α) × List (Operation × α × List (Operation × α))
  | [] => ([], [])
  | (op, x) :: rest =>
    let (factors, later) := runs rest
    match op with
    | .add | .subtract => ([], (op, x, factors) :: later)
    | .multiply | .divide => ((op, x) :: factors, later)

section Value

variable (apply : Operation → α → α → α)

def runValue (first : α) (factors : List (Operation × α)) : α :=
  factors.foldl (fun left pair => apply pair.1 left pair.2) first

/-- The runs of multiplications and divisions first, then the sums and differences. -/
def infixValue (first : α) (rest : List (Operation × α)) : α :=
  (runs rest).2.foldl (fun left run => apply run.1 left (runValue apply run.2.1 run.2.2))
    (runValue apply first (runs rest).1)

/-- What the sum read so far, if there is one, becomes with the run that ends it. -/
def joinSum : Option (α × Operation) → α → α
  | none, run => run
  | some (left, op), run => apply op left run

/-- The value when a sum and the beginning of a run have been read already. -/
def valueFrom (sum : Option (α × Operation)) (run : α) (rest : List (Operation × α)) : α :=
  (runs rest).2.foldl (fun left run => apply run.1 left (runValue apply run.2.1 run.2.2))
    (joinSum apply sum (runValue apply run (runs rest).1))

theorem valueFrom_loose (sum : Option (α × Operation)) (run x : α) (op : Operation)
    (rest : List (Operation × α)) (loose : op.precedence = 1) :
    valueFrom apply sum run ((op, x) :: rest) =
      valueFrom apply (some (joinSum apply sum run, op)) x rest := by
  cases op with
  | add => rfl
  | subtract => rfl
  | multiply => simp [Operation.precedence] at loose
  | divide => simp [Operation.precedence] at loose

theorem valueFrom_tight (sum : Option (α × Operation)) (run x : α) (op : Operation)
    (rest : List (Operation × α)) (tight : op.precedence = 2) :
    valueFrom apply sum run ((op, x) :: rest) =
      valueFrom apply sum (apply op run x) rest := by
  cases op with
  | add => simp [Operation.precedence] at tight
  | subtract => simp [Operation.precedence] at tight
  | multiply => rfl
  | divide => rfl

end Value

theorem precedence_cases (op : Operation) : op.precedence = 1 ∨ op.precedence = 2 := by
  cases op <;> simp [Operation.precedence]

/-- A map that carries one set of operations into another carries values into values. -/
theorem map_valueFrom {β : Type} (f : Operation → α → α → α) (g : Operation → β → β → β)
    (h : α → β) (carries : ∀ op x y, h (f op x y) = g op (h x) (h y))
    (sum : Option (α × Operation)) (run : α) (rest : List (Operation × α)) :
    h (valueFrom f sum run rest) =
      valueFrom g (sum.map fun entry => (h entry.1, entry.2)) (h run)
        (rest.map fun pair => (pair.1, h pair.2)) := by
  induction rest generalizing sum run with
  | nil =>
      cases sum with
      | none => rfl
      | some entry => exact carries entry.2 entry.1 run
  | cons pair rest ih =>
      rcases precedence_cases pair.1 with loose | tight
      · rw [valueFrom_loose f sum run pair.2 pair.1 rest loose, ih, List.map_cons,
          valueFrom_loose g _ _ _ _ _ loose]
        cases sum with
        | none => rfl
        | some entry => simp [joinSum, carries]
      · rw [valueFrom_tight f sum run pair.2 pair.1 rest tight, ih, List.map_cons,
          valueFrom_tight g _ _ _ _ _ tight, carries]

def infixTree (first : α) (rest : List (Operation × α)) : ExpressionTree α :=
  infixValue .node (.leaf first) (rest.map fun pair => (pair.1, .leaf pair.2))

theorem infixTree_value (apply : Operation → α → α → α) (first : α)
    (rest : List (Operation × α)) :
    (infixTree first rest).value apply = infixValue apply first rest := by
  have carried := map_valueFrom ExpressionTree.node apply (ExpressionTree.value apply)
    (fun _ _ _ => rfl) none (.leaf first) (rest.map fun pair => (pair.1, .leaf pair.2))
  simpa [infixTree, infixValue, valueFrom, joinSum, ExpressionTree.value,
    Function.comp_def] using carried

def alternates : Bool → List (Token α) → Bool
  | operandDue, [] => !operandDue
  | operandDue, .number _ :: rest => operandDue && alternates false rest
  | operandDue, .operator _ :: rest => !operandDue && alternates true rest

theorem alternates_pairs (rest : List (Operation × α)) :
    alternates false (rest.flatMap fun pair => [.operator pair.1, .number pair.2]) = true := by
  induction rest with
  | nil => rfl
  | cons pair rest ih => simpa [alternates] using ih

theorem alternates_infixTokens (first : α) (rest : List (Operation × α)) :
    alternates true (infixTokens first rest) = true := by
  simpa [infixTokens, alternates] using alternates_pairs rest

theorem pairs_of_alternates (tokens : List (Token α)) :
    (alternates true tokens = true → ∃ first rest, tokens = infixTokens first rest) ∧
    (alternates false tokens = true →
      ∃ rest : List (Operation × α),
        tokens = rest.flatMap fun pair => [.operator pair.1, .number pair.2]) := by
  induction tokens with
  | nil => exact ⟨by simp [alternates], fun _ => ⟨[], rfl⟩⟩
  | cons token tokens ih =>
      cases token with
      | number x =>
          refine ⟨?_, by simp [alternates]⟩
          intro turns
          obtain ⟨rest, same⟩ := ih.2 (by simpa [alternates] using turns)
          exact ⟨x, rest, by rw [same, infixTokens]⟩
      | operator op =>
          refine ⟨by simp [alternates], ?_⟩
          intro turns
          obtain ⟨first, rest, same⟩ := ih.1 (by simpa [alternates] using turns)
          exact ⟨(op, first) :: rest, by rw [same]; rfl⟩

theorem alternates_iff (tokens : List (Token α)) :
    alternates true tokens = true ↔ ∃ first rest, tokens = infixTokens first rest := by
  constructor
  · exact (pairs_of_alternates tokens).1
  · rintro ⟨first, rest, rfl⟩
    exact alternates_infixTokens first rest

/-- The rest of a list put into order from any state reached before it. -/
def arrangeFrom (state : Arrangement α) (tokens : List (Token α)) :
    Except EvalError (List (Token α)) := do
  (← tokens.foldlM Arrangement.step state).finish

theorem arrangeFrom_cons (state next : Arrangement α) (token : Token α)
    (tokens : List (Token α)) (stepped : state.step token = .ok next) :
    arrangeFrom state (token :: tokens) = arrangeFrom next tokens := by
  rw [arrangeFrom, List.foldlM_cons, stepped]
  rfl

theorem arrangeFrom_error (state : Arrangement α) (token : Token α)
    (tokens : List (Token α)) (cause : EvalError) (stopped : state.step token = .error cause) :
    arrangeFrom state (token :: tokens) = .error cause := by
  rw [arrangeFrom, List.foldlM_cons, stopped]
  rfl

theorem arrangeFrom_of_not_alternates (tokens : List (Token α)) (state : Arrangement α)
    (broken : alternates state.operandDue tokens = false) :
    arrangeFrom state tokens = .error .malformedExpression := by
  induction tokens generalizing state with
  | nil =>
      have due : state.operandDue = true := by simpa [alternates] using broken
      change state.finish = _
      simp [Arrangement.finish, due]
  | cons token tokens ih =>
      cases token with
      | number x =>
          by_cases due : state.operandDue = true
          · rw [arrangeFrom_cons state _ _ tokens (by rw [Arrangement.step, if_pos due])]
            exact ih _ (by simpa [alternates, due] using broken)
          · exact arrangeFrom_error state _ tokens _ (by rw [Arrangement.step, if_neg due])
      | operator op =>
          by_cases due : state.operandDue = true
          · exact arrangeFrom_error state _ tokens _ (by rw [Arrangement.step, if_pos due])
          · rw [arrangeFrom_cons state _ _ tokens (by rw [Arrangement.step, if_neg due])]
            exact ih _ (by simpa [alternates, due] using broken)

-- The sum read so far is in its final place but for its operator, which waits below the
-- operator of the run. Neither part of the run's own tokens need be split further.
def sumPlaced : Option (ExpressionTree α × Operation) → List (Token α)
  | none => []
  | some (left, _) => left.postorder

def sumWaiting : Option (ExpressionTree α × Operation) → List Operation
  | none => []
  | some (_, op) => [op]

/-- After an operand the state holds a sum and a run: what is placed and what waits are the
postorder of both, cut where the next operator decides. -/
structure Arranged (state : Arrangement α) (sum : Option (ExpressionTree α × Operation))
    (run : ExpressionTree α) : Prop where
  operandRead : state.operandDue = false
  loose : ∀ op ∈ sumWaiting sum, op.precedence = 1
  parts : ∃ placed waiting, (∀ op ∈ waiting, op.precedence = 2) ∧
    state.placed.reverse = sumPlaced sum ++ placed ∧
    state.waiting = waiting ++ sumWaiting sum ∧
    run.postorder = placed ++ waiting.map .operator

theorem arranged_start (x : α) :
    Arranged ⟨[.number x], [], false⟩ none (.leaf x) where
  operandRead := rfl
  loose := by simp [sumWaiting]
  parts := ⟨[.number x], [], by simp, rfl, rfl, rfl⟩

theorem joinSum_postorder (sum : Option (ExpressionTree α × Operation))
    (run : ExpressionTree α) :
    (joinSum .node sum run).postorder =
      sumPlaced sum ++ (run.postorder ++ (sumWaiting sum).map .operator) := by
  cases sum with
  | none => simp [joinSum, sumPlaced, sumWaiting]
  | some entry => rfl

theorem arranged_finish (state : Arrangement α)
    (sum : Option (ExpressionTree α × Operation)) (run : ExpressionTree α)
    (arranged : Arranged state sum run) :
    state.finish = .ok (joinSum .node sum run).postorder := by
  obtain ⟨placed, waiting, _, placedParts, waitingParts, runParts⟩ := arranged.parts
  rw [Arrangement.finish, if_neg (by simp [arranged.operandRead]), joinSum_postorder,
    placedParts, waitingParts, runParts]
  simp

theorem release_span (state : Arrangement α) (op : Operation) (inner outer : List Operation)
    (binds : ∀ earlier ∈ inner, op.precedence ≤ earlier.precedence)
    (looser : ∀ earlier ∈ outer, earlier.precedence < op.precedence)
    (parts : state.waiting = inner ++ outer) :
    state.release op =
      { state with
        placed := inner.reverse.map .operator ++ state.placed
        waiting := outer } := by
  have inside : ∀ earlier ∈ inner, decide (op.precedence ≤ earlier.precedence) = true := by
    intro earlier member
    exact decide_eq_true (binds earlier member)
  have stops : StopsSpan (fun earlier : Operation =>
      decide (op.precedence ≤ earlier.precedence)) outer := by
    intro earlier found
    have below := looser earlier (List.mem_of_mem_head? found)
    exact decide_eq_false (by omega)
  simp only [Arrangement.release, parts]
  rw [takeWhile_span _ inner outer inside stops, dropWhile_span _ inner outer inside stops]

theorem arranged_operator (state : Arrangement α) (op : Operation) (x : α)
    (operandRead : state.operandDue = false) (inner outer : List Operation)
    (binds : ∀ earlier ∈ inner, op.precedence ≤ earlier.precedence)
    (looser : ∀ earlier ∈ outer, earlier.precedence < op.precedence)
    (parts : state.waiting = inner ++ outer) (rest : List (Token α)) :
    arrangeFrom state (.operator op :: .number x :: rest) =
      arrangeFrom ⟨.number x :: (inner.reverse.map .operator ++ state.placed), op :: outer,
        false⟩ rest := by
  have opStep : state.step (.operator op) =
      .ok ⟨inner.reverse.map .operator ++ state.placed, op :: outer, true⟩ := by
    simp only [Arrangement.step, operandRead,
      release_span state op inner outer binds looser parts]
    rfl
  rw [arrangeFrom_cons state _ _ _ opStep, arrangeFrom_cons _ _ _ rest rfl]

/-- An operator of the lower precedence completes the run and the sum before it. -/
theorem arranged_loose (state : Arrangement α)
    (sum : Option (ExpressionTree α × Operation)) (run : ExpressionTree α)
    (arranged : Arranged state sum run) (op : Operation) (x : α)
    (loose : op.precedence = 1) :
    ∃ next, Arranged next (some (joinSum .node sum run, op)) (.leaf x) ∧
      ∀ rest, arrangeFrom state (.operator op :: .number x :: rest) =
        arrangeFrom next rest := by
  obtain ⟨placed, waiting, _, placedParts, waitingParts, runParts⟩ := arranged.parts
  refine ⟨⟨.number x :: (state.waiting.reverse.map .operator ++ state.placed), [op], false⟩,
    ?_, fun rest => arranged_operator state op x arranged.operandRead state.waiting [] ?_
      (by simp) (by simp) rest⟩
  · refine ⟨rfl, by simp [sumWaiting, loose], [.number x], [], by simp, ?_, rfl, rfl⟩
    simp [sumPlaced, joinSum_postorder, placedParts, waitingParts, runParts]
  · intro earlier _
    rcases precedence_cases earlier with low | high <;> omega

/-- An operator of the higher precedence takes the run for its left operand. -/
theorem arranged_tight (state : Arrangement α)
    (sum : Option (ExpressionTree α × Operation)) (run : ExpressionTree α)
    (arranged : Arranged state sum run) (op : Operation) (x : α)
    (tight : op.precedence = 2) :
    ∃ next, Arranged next sum (.node op run (.leaf x)) ∧
      ∀ rest, arrangeFrom state (.operator op :: .number x :: rest) =
        arrangeFrom next rest := by
  obtain ⟨placed, waiting, inner, placedParts, waitingParts, runParts⟩ := arranged.parts
  refine ⟨⟨.number x :: (waiting.reverse.map .operator ++ state.placed),
    op :: sumWaiting sum, false⟩, ?_, fun rest => arranged_operator state op x
      arranged.operandRead waiting (sumWaiting sum) ?_ ?_ waitingParts rest⟩
  · refine ⟨rfl, arranged.loose, run.postorder ++ [.number x], [op], by simp [tight], ?_,
      rfl, ?_⟩
    · simp [placedParts, runParts]
    · simp [ExpressionTree.postorder]
  · intro earlier member
    have level := inner earlier member
    omega
  · intro earlier member
    have level := arranged.loose earlier member
    omega

-- The induction is on the pairs still to come; what the state holds of the pairs already
-- read is the invariant `Arranged`, so sum and run vary along it.
theorem arrangeFrom_pairs (rest : List (Operation × α)) (state : Arrangement α)
    (sum : Option (ExpressionTree α × Operation)) (run : ExpressionTree α)
    (arranged : Arranged state sum run) :
    arrangeFrom state (rest.flatMap fun pair => [.operator pair.1, .number pair.2]) =
      .ok (valueFrom .node sum run
        (rest.map fun pair => (pair.1, .leaf pair.2))).postorder := by
  induction rest generalizing state sum run with
  | nil =>
      change state.finish = _
      rw [arranged_finish state sum run arranged]
      rfl
  | cons pair rest ih =>
      obtain ⟨op, x⟩ := pair
      rcases precedence_cases op with loose | tight
      · obtain ⟨next, arrangedNext, continues⟩ :=
          arranged_loose state sum run arranged op x loose
        rw [List.map_cons, valueFrom_loose _ _ _ _ _ _ loose,
          ← ih next _ _ arrangedNext, ← continues]
        rfl
      · obtain ⟨next, arrangedNext, continues⟩ :=
          arranged_tight state sum run arranged op x tight
        rw [List.map_cons, valueFrom_tight _ _ _ _ _ _ tight,
          ← ih next _ _ arrangedNext, ← continues]
        rfl

theorem ofInfix_infixTokens (first : α) (rest : List (Operation × α)) :
    ofInfix (infixTokens first rest) = .ok (infixTree first rest).postorder := by
  change arrangeFrom .start (infixTokens first rest) = _
  rw [infixTokens, arrangeFrom_cons _ _ _ _ rfl]
  exact arrangeFrom_pairs rest _ none (.leaf first) (arranged_start first)

theorem ofInfix_of_not_alternates (tokens : List (Token α))
    (broken : alternates true tokens = false) :
    ofInfix tokens = .error .malformedExpression :=
  arrangeFrom_of_not_alternates tokens .start broken

theorem reduce_infixTree (apply : Operation → α → α → α) (first : α)
    (rest : List (Operation × α)) :
    reduce apply (infixTree first rest).postorder = .ok (infixValue apply first rest) := by
  rw [ExpressionTree.reduce_postorder, infixTree_value]

theorem ofInfix_ok_iff (tokens : List (Token α)) :
    (∃ ordered, ofInfix tokens = .ok ordered) ↔ alternates true tokens = true := by
  constructor
  · rintro ⟨ordered, accepted⟩
    cases turns : alternates true tokens with
    | true => rfl
    | false => simp [ofInfix_of_not_alternates tokens turns] at accepted
  · intro turns
    obtain ⟨first, rest, rfl⟩ := (alternates_iff tokens).mp turns
    exact ⟨_, ofInfix_infixTokens first rest⟩

/-- Exactly the lists of an operand and pairs after it are put into order, and what the
reduction makes of them is their value run by run. -/
theorem precedence_exact (apply : Operation → α → α → α) (tokens : List (Token α)) :
    ((∃ ordered, ofInfix tokens = .ok ordered) ↔
      ∃ first rest, tokens = infixTokens first rest) ∧
    ((¬ ∃ first rest, tokens = infixTokens first rest) →
      ofInfix tokens = .error .malformedExpression) ∧
    ∀ ordered, ofInfix tokens = .ok ordered →
      ∃ first rest, tokens = infixTokens first rest ∧
        reduce apply ordered = .ok (infixValue apply first rest) := by
  refine ⟨(ofInfix_ok_iff tokens).trans (alternates_iff tokens), ?_, ?_⟩
  · intro shapeless
    apply ofInfix_of_not_alternates
    cases turns : alternates true tokens with
    | false => rfl
    | true => exact absurd ((alternates_iff tokens).mp turns) shapeless
  · intro ordered accepted
    obtain ⟨first, rest, rfl⟩ :=
      (alternates_iff tokens).mp ((ofInfix_ok_iff tokens).mp ⟨ordered, accepted⟩)
    rw [ofInfix_infixTokens] at accepted
    cases accepted
    exact ⟨first, rest, rfl, reduce_infixTree apply first rest⟩

-- Eight less three less the product of two and five, and an operator without operands.
theorem precedence_exact_mixed :
    (∃ first rest,
      [.number (.ofRat false 8), .operator .subtract, .number (.ofRat false 3),
        .operator .subtract, .number (.ofRat false 2), .operator .multiply,
        .number (.ofRat false 5)] = infixTokens (α := Double) first rest ∧
      reduce Operation.apply
        [.number (.ofRat false 8), .number (.ofRat false 3), .operator .subtract,
          .number (.ofRat false 2), .number (.ofRat false 5), .operator .multiply,
          .operator .subtract] = .ok (infixValue Operation.apply first rest)) ∧
    ofInfix [.operator (α := Double) .add] = .error .malformedExpression := by
  constructor
  · exact (precedence_exact Operation.apply _).2.2 _ rfl
  · refine (precedence_exact (α := Double) Operation.apply _).2.1 ?_
    rintro ⟨first, rest, same⟩
    simp [infixTokens] at same

end DeskCalculator.Postfix
