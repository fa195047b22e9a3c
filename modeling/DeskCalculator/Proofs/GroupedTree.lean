import DeskCalculator.Proofs.Precedence

/-!
The tree that stands between the two orders of an expression. A list of infix tokens is the
inorder of a tree, and the arrangement makes the postorder of the same tree of it. In that tree
the operations are grouped as their precedence and the reading from the left demand; a grouped
tree is found by the arrangement from its inorder, whatever its shape, so there is only one.
Nothing is lost: the tree is known from the arranged tokens, and the infix tokens from the tree.
-/

namespace DeskCalculator

variable {α : Type}

def Token.number? : Token α → Option α
  | number x => some x
  | operator _ => none

namespace ExpressionTree

/-- The operation computed last; a number has none. -/
def root? : ExpressionTree α → Option Operation
  | leaf _ => none
  | node op _ _ => some op

def inorder : ExpressionTree α → List (Token α)
  | leaf x => [.number x]
  | node op left right => left.inorder ++ .operator op :: right.inorder

/-- An operation has on its right only numbers and operations that bind tighter, and on its left
also those that bind as tightly. -/
inductive IsGrouped : ExpressionTree α → Prop where
  | leaf (x : α) : IsGrouped (leaf x)
  | node {op : Operation} {left right : ExpressionTree α}
      (leftBinds : ∀ inner ∈ left.root?, op.precedence ≤ inner.precedence)
      (rightBinds : ∀ inner ∈ right.root?, op.precedence < inner.precedence)
      (leftGrouped : IsGrouped left) (rightGrouped : IsGrouped right) :
      IsGrouped (node op left right)

theorem postorder_perm_inorder (tree : ExpressionTree α) :
    tree.postorder.Perm tree.inorder := by
  induction tree with
  | leaf x => exact .refl _
  | node op left right leftPerm rightPerm =>
      have moved : (right.postorder ++ [Token.operator op]).Perm
          (Token.operator op :: right.inorder) :=
        (List.perm_append_singleton _ _).trans (rightPerm.cons _)
      exact leftPerm.append moved

theorem numbers_postorder (tree : ExpressionTree α) :
    tree.postorder.filterMap Token.number? = tree.inorder.filterMap Token.number? := by
  induction tree with
  | leaf x => rfl
  | node op left right leftSame rightSame =>
      have skipped : (Token.operator (α := α) op).number? = none := rfl
      simp [postorder, inorder, leftSame, rightSame, skipped]

end ExpressionTree

namespace Postfix

theorem arrangeFrom_nil (state : Arrangement α) : arrangeFrom state [] = state.finish := rfl

theorem arrangeFrom_number (state : Arrangement α) (due : state.operandDue = true) (x : α)
    (rest : List (Token α)) :
    arrangeFrom state (.number x :: rest) =
      arrangeFrom ⟨.number x :: state.placed, state.waiting, false⟩ rest :=
  arrangeFrom_cons state _ _ rest (by rw [Arrangement.step, if_pos due])

theorem arrangeFrom_operator (placed : List (Token α)) (inner outer : List Operation)
    (op : Operation) (binds : ∀ earlier ∈ inner, op.precedence ≤ earlier.precedence)
    (looser : ∀ earlier ∈ outer, earlier.precedence < op.precedence) (rest : List (Token α)) :
    arrangeFrom ⟨placed, inner ++ outer, false⟩ (.operator op :: rest) =
      arrangeFrom ⟨inner.reverse.map .operator ++ placed, op :: outer, true⟩ rest := by
  apply arrangeFrom_cons
  rw [Arrangement.step, if_neg (by simp),
    release_span ⟨placed, inner ++ outer, false⟩ op inner outer binds looser rfl]

-- The induction is on the tree. What waits from before binds looser than the root, so nothing in
-- the tree releases it; what the tree leaves waiting binds at least as tightly as its root, so
-- the operator above the tree releases all of it and no more.
theorem arrangeFrom_inorder (tree : ExpressionTree α) (grouped : tree.IsGrouped)
    (state : Arrangement α) (due : state.operandDue = true)
    (looser : ∀ earlier ∈ state.waiting, ∀ root ∈ tree.root?,
      earlier.precedence < root.precedence) :
    ∃ placed waiting, tree.postorder = placed ++ waiting.map .operator ∧
      (∀ later ∈ waiting, ∃ root ∈ tree.root?, root.precedence ≤ later.precedence) ∧
      ∀ rest, arrangeFrom state (tree.inorder ++ rest) =
        arrangeFrom ⟨placed.reverse ++ state.placed, waiting ++ state.waiting, false⟩ rest := by
  induction grouped generalizing state with
  | leaf x =>
      refine ⟨[.number x], [], rfl, by simp, fun rest => ?_⟩
      exact arrangeFrom_number state due x rest
  | @node op left right leftBinds rightBinds _ _ leftRun rightRun =>
      have looserOp : ∀ earlier ∈ state.waiting, earlier.precedence < op.precedence :=
        fun earlier member => looser earlier member op rfl
      obtain ⟨leftPlaced, leftWaiting, leftSplit, leftTight, leftArranged⟩ :=
        leftRun state due fun earlier member root isRoot =>
          Nat.lt_of_lt_of_le (looserOp earlier member) (leftBinds root isRoot)
      have released : ∀ later ∈ leftWaiting, op.precedence ≤ later.precedence := by
        intro later member
        obtain ⟨root, isRoot, tight⟩ := leftTight later member
        exact Nat.le_trans (leftBinds root isRoot) tight
      obtain ⟨rightPlaced, rightWaiting, rightSplit, rightTight, rightArranged⟩ :=
        rightRun ⟨leftWaiting.reverse.map .operator ++ (leftPlaced.reverse ++ state.placed),
          op :: state.waiting, true⟩ rfl fun earlier member root isRoot => by
            rcases List.mem_cons.mp member with rfl | before
            · exact rightBinds root isRoot
            · exact Nat.lt_trans (looserOp earlier before) (rightBinds root isRoot)
      refine ⟨left.postorder ++ rightPlaced, rightWaiting ++ [op], ?_, ?_, fun rest => ?_⟩
      · simp [ExpressionTree.postorder, rightSplit]
      · intro later member
        rcases List.mem_append.mp member with inRight | last
        · obtain ⟨root, isRoot, tight⟩ := rightTight later inRight
          exact ⟨op, rfl, Nat.le_trans (Nat.le_of_lt (rightBinds root isRoot)) tight⟩
        · rw [List.mem_singleton.mp last]
          exact ⟨op, rfl, Nat.le_refl _⟩
      · rw [ExpressionTree.inorder, List.append_assoc, leftArranged, List.cons_append,
          arrangeFrom_operator _ _ _ _ released looserOp, rightArranged]
        simp [leftSplit]

theorem ofInfix_inorder (tree : ExpressionTree α) (grouped : tree.IsGrouped) :
    ofInfix tree.inorder = .ok tree.postorder := by
  obtain ⟨placed, waiting, split, _, arranged⟩ :=
    arrangeFrom_inorder tree grouped .start rfl (by simp [Arrangement.start])
  change arrangeFrom .start tree.inorder = _
  rw [← List.append_nil tree.inorder, arranged, arrangeFrom_nil, split]
  simp [Arrangement.finish, Arrangement.start]

theorem grouped_unique {tree other : ExpressionTree α} (grouped : tree.IsGrouped)
    (otherGrouped : other.IsGrouped) (same : other.inorder = tree.inorder) : other = tree := by
  have arranged := ofInfix_inorder other otherGrouped
  rw [same, ofInfix_inorder tree grouped] at arranged
  exact other.postorder_injective tree (Except.ok.inj arranged).symm

theorem joinSum_grouped (sum : Option (ExpressionTree α × Operation)) (run : ExpressionTree α)
    (sumGrouped : ∀ entry ∈ sum, entry.1.IsGrouped ∧ entry.2.precedence = 1)
    (runGrouped : run.IsGrouped) (tight : ∀ op ∈ run.root?, op.precedence = 2) :
    (joinSum .node sum run).IsGrouped := by
  cases sum with
  | none => exact runGrouped
  | some entry =>
      obtain ⟨leftGrouped, loose⟩ := sumGrouped entry rfl
      refine .node (fun inner _ => ?_) (fun inner isRoot => ?_) leftGrouped runGrouped
      · rcases precedence_cases inner with low | high <;> omega
      · rw [loose, tight inner isRoot]
        decide

/-- The value of pairs behind a sum and a run is grouped when these are: a run holds nothing but
operations of the higher precedence at its root. -/
theorem valueFrom_grouped (rest : List (Operation × α))
    (sum : Option (ExpressionTree α × Operation)) (run : ExpressionTree α)
    (sumGrouped : ∀ entry ∈ sum, entry.1.IsGrouped ∧ entry.2.precedence = 1)
    (runGrouped : run.IsGrouped) (tight : ∀ op ∈ run.root?, op.precedence = 2) :
    (valueFrom .node sum run (rest.map fun pair => (pair.1, .leaf pair.2))).IsGrouped := by
  induction rest generalizing sum run with
  | nil => exact joinSum_grouped sum run sumGrouped runGrouped tight
  | cons pair rest ih =>
      rcases precedence_cases pair.1 with loose | tighter
      · rw [List.map_cons, valueFrom_loose _ _ _ _ _ _ loose]
        apply ih _ _ _ (.leaf _) (by simp [ExpressionTree.root?])
        rintro entry ⟨⟩
        exact ⟨joinSum_grouped sum run sumGrouped runGrouped tight, loose⟩
      · rw [List.map_cons, valueFrom_tight _ _ _ _ _ _ tighter]
        apply ih sum _ sumGrouped
        · refine .node (fun inner isRoot => ?_) (by simp [ExpressionTree.root?]) runGrouped
            (.leaf _)
          exact Nat.le_of_eq (tighter.trans (tight inner isRoot).symm)
        · rintro op ⟨⟩
          exact tighter

theorem valueFrom_inorder (rest : List (Operation × α))
    (sum : Option (ExpressionTree α × Operation)) (run : ExpressionTree α) :
    (valueFrom .node sum run (rest.map fun pair => (pair.1, .leaf pair.2))).inorder =
      (joinSum .node sum run).inorder ++
        rest.flatMap fun pair => [.operator pair.1, .number pair.2] := by
  induction rest generalizing sum run with
  | nil => exact (List.append_nil _).symm
  | cons pair rest ih =>
      rcases precedence_cases pair.1 with loose | tight
      · rw [List.map_cons, valueFrom_loose _ _ _ _ _ _ loose, ih]
        simp [joinSum, ExpressionTree.inorder]
      · rw [List.map_cons, valueFrom_tight _ _ _ _ _ _ tight, ih]
        cases sum <;> simp [joinSum, ExpressionTree.inorder]

theorem grouped_of_ofInfix (tokens ordered : List (Token α))
    (arranged : ofInfix tokens = .ok ordered) :
    ∃ tree : ExpressionTree α, tree.IsGrouped ∧ tree.inorder = tokens ∧
      tree.postorder = ordered := by
  obtain ⟨first, rest, rfl⟩ :=
    (alternates_iff tokens).mp ((ofInfix_ok_iff tokens).mp ⟨ordered, arranged⟩)
  rw [ofInfix_infixTokens] at arranged
  refine ⟨infixTree first rest, ?_, ?_, Except.ok.inj arranged⟩
  · exact valueFrom_grouped rest none (.leaf first) (by simp) (.leaf first)
      (by simp [ExpressionTree.root?])
  · exact valueFrom_inorder rest none (.leaf first)

/-- The arrangement loses nothing. Its result is the postorder of one tree; that tree has the
tokens for its inorder and is the only one so grouped, the numbers keep their order, no token is
lost or added, and no other tokens are arranged in the same way. -/
theorem arrangement_lossless (tokens ordered : List (Token α))
    (arranged : ofInfix tokens = .ok ordered) :
    (∃ tree : ExpressionTree α, (∀ other, other.postorder = ordered ↔ other = tree) ∧
      ∀ other, other.inorder = tokens ∧ other.IsGrouped ↔ other = tree) ∧
    ordered.filterMap Token.number? = tokens.filterMap Token.number? ∧
    ordered.Perm tokens ∧
    ∀ others, ofInfix others = .ok ordered → others = tokens := by
  obtain ⟨tree, grouped, rfl, rfl⟩ := grouped_of_ofInfix tokens ordered arranged
  refine ⟨⟨tree, fun other => ⟨other.postorder_injective tree, ?_⟩, fun other => ⟨?_, ?_⟩⟩,
    tree.numbers_postorder, tree.postorder_perm_inorder, ?_⟩
  · rintro rfl
    rfl
  · rintro ⟨same, otherGrouped⟩
    exact grouped_unique grouped otherGrouped same
  · rintro rfl
    exact ⟨rfl, grouped⟩
  · intro others othersArranged
    obtain ⟨other, _, rfl, samePostorder⟩ := grouped_of_ofInfix others _ othersArranged
    rw [other.postorder_injective tree samePostorder]

-- Eight less two times five less three, with the product of two and five on the left of the
-- second difference.
theorem arrangement_lossless_differences :
    let number (n : Nat) : Token Double := .number (.ofRat false n)
    let tokens := [number 8, .operator .subtract, number 2, .operator .multiply, number 5,
      .operator .subtract, number 3]
    let ordered := [number 8, number 2, number 5, .operator .multiply, .operator .subtract,
      number 3, .operator .subtract]
    ofInfix tokens = .ok ordered ∧ ordered.Perm tokens ∧
      ∃ tree : ExpressionTree Double, tree.postorder = ordered ∧ tree.inorder = tokens ∧
        tree.IsGrouped := by
  intro number tokens ordered
  have arranged : ofInfix tokens = .ok ordered := rfl
  obtain ⟨⟨tree, written, listed⟩, _, perm, _⟩ := arrangement_lossless tokens ordered arranged
  obtain ⟨inorder, grouped⟩ := (listed tree).mpr rfl
  exact ⟨arranged, perm, tree, (written tree).mpr rfl, inorder, grouped⟩

end Postfix

end DeskCalculator
