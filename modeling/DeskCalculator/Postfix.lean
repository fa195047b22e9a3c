import DeskCalculator.EvalError
import DeskCalculator.Operation
import DeskCalculator.Token

/-!
Infix tokens put into postfix order and postfix tokens reduced to a value, each one token at
a time over an explicit state. Neither looks at the numbers themselves: ordering keeps them
as they are, and reduction is given what an operator does to two of them.
-/

namespace DeskCalculator.Postfix

variable {α : Type}

/--
A prefix of an infix list put into order. Operators wait until one of no higher precedence,
or the end, shows that their right operand is complete.
-/
structure Arrangement (α : Type) where
  /-- What is in its final place, the latest first. -/
  placed : List (Token α)
  /-- The operators that wait, the latest first. -/
  waiting : List Operation
  operandDue : Bool

def Arrangement.start : Arrangement α := ⟨[], [], true⟩

def Arrangement.release (state : Arrangement α) (op : Operation) : Arrangement α :=
  let binds := fun earlier : Operation => decide (op.precedence ≤ earlier.precedence)
  { state with
    placed := (state.waiting.takeWhile binds).reverse.map .operator ++ state.placed
    waiting := state.waiting.dropWhile binds }

def Arrangement.step (state : Arrangement α) : Token α → Except EvalError (Arrangement α)
  | .number x =>
    if state.operandDue then
      .ok { state with placed := .number x :: state.placed, operandDue := false }
    else .error .malformedExpression
  | .operator op =>
    if state.operandDue then .error .malformedExpression
    else
      let released := state.release op
      .ok { released with waiting := op :: released.waiting, operandDue := true }

def Arrangement.finish (state : Arrangement α) : Except EvalError (List (Token α)) :=
  if state.operandDue then .error .malformedExpression
  else .ok (state.placed.reverse ++ state.waiting.map .operator)

def ofInfix (tokens : List (Token α)) : Except EvalError (List (Token α)) := do
  (← tokens.foldlM Arrangement.step .start).finish

variable (apply : Operation → α → α → α)

/-- One step of reduction; the latest value is the right operand. -/
def reduceStep (stack : List α) : Token α → Except EvalError (List α)
  | .number x => .ok (x :: stack)
  | .operator op =>
    match stack with
    | right :: left :: rest => .ok (apply op left right :: rest)
    | _ => .error .malformedExpression

def reduce (tokens : List (Token α)) : Except EvalError α := do
  match ← tokens.foldlM (reduceStep apply) [] with
  | [x] => .ok x
  | _ => .error .malformedExpression

end DeskCalculator.Postfix
