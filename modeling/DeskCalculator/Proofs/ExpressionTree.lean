import DeskCalculator.Postfix

/-!
Expressions as binary trees, which is what a list of tokens in postfix order writes down.
The reduction of such a list leaves on the stack the value of the tree, computed from the
leaves upwards, whatever stood on the stack before and whatever the operations are. Where the
operations join trees the value of a list is the tree itself, so no list writes down two trees.
-/

namespace DeskCalculator

theorem foldlM_cons_ok {σ τ : Type} (step : σ → τ → Except EvalError σ) (token : τ)
    (rest : List τ) (state final : σ) (run : (token :: rest).foldlM step state = .ok final) :
    ∃ next, step state token = .ok next ∧ rest.foldlM step next = .ok final := by
  rw [List.foldlM_cons] at run
  cases stepped : step state token with
  | error cause =>
      rw [stepped] at run
      cases run
  | ok next =>
      rw [stepped] at run
      exact ⟨next, rfl, run⟩

inductive ExpressionTree (α : Type) where
  | leaf (x : α)
  | node (op : Operation) (left right : ExpressionTree α)

def Token.map {α β : Type} (f : α → β) : Token α → Token β
  | number x => number (f x)
  | operator op => operator op

namespace ExpressionTree

variable {α : Type}

def value (apply : Operation → α → α → α) : ExpressionTree α → α
  | leaf x => x
  | node op left right => apply op (left.value apply) (right.value apply)

def postorder : ExpressionTree α → List (Token α)
  | leaf x => [.number x]
  | node op left right => left.postorder ++ (right.postorder ++ [.operator op])

/-- Each subtree finds its operands above a stack it never looks into, which is why the
stack is arbitrary here. -/
theorem reduceStep_postorder (apply : Operation → α → α → α) (tree : ExpressionTree α)
    (stack : List α) :
    tree.postorder.foldlM (Postfix.reduceStep apply) stack =
      .ok (tree.value apply :: stack) := by
  induction tree generalizing stack with
  | leaf x => rfl
  | node op left right leftRun rightRun =>
      rw [postorder, List.foldlM_append, leftRun]
      change (right.postorder ++ [Token.operator op]).foldlM _ (left.value apply :: stack) = _
      rw [List.foldlM_append, rightRun]
      rfl

theorem reduce_postorder (apply : Operation → α → α → α) (tree : ExpressionTree α) :
    Postfix.reduce apply tree.postorder = .ok (tree.value apply) := by
  rw [Postfix.reduce, reduceStep_postorder]
  rfl

def map {β : Type} (f : α → β) : ExpressionTree α → ExpressionTree β
  | leaf x => leaf (f x)
  | node op left right => node op (left.map f) (right.map f)

theorem postorder_map {β : Type} (f : α → β) (tree : ExpressionTree α) :
    (tree.map f).postorder = tree.postorder.map (Token.map f) := by
  induction tree with
  | leaf x => rfl
  | node op left right leftMap rightMap =>
      simp [map, postorder, leftMap, rightMap, Token.map]

theorem value_map_leaf (tree : ExpressionTree α) : (tree.map leaf).value node = tree := by
  induction tree with
  | leaf x => rfl
  | node op left right leftSame rightSame => simp [map, value, leftSame, rightSame]

/-- Reduction by joining trees rebuilds the tree that was written down. -/
theorem reduce_leaves (tree : ExpressionTree α) :
    Postfix.reduce node (tree.postorder.map (Token.map leaf)) = .ok tree := by
  have rebuilt := reduce_postorder node (tree.map leaf)
  rwa [postorder_map, value_map_leaf] at rebuilt

theorem postorder_injective (left right : ExpressionTree α)
    (same : left.postorder = right.postorder) : left = right := by
  have rebuilt := reduce_leaves left
  rw [same, reduce_leaves right] at rebuilt
  exact (Except.ok.inj rebuilt).symm

end ExpressionTree

end DeskCalculator
