import DeskCalculator.Quotation

/-!
Why a text has no result to show. The causes are told apart because the journal names them;
the display itself stays as it is whatever the cause.
-/

namespace DeskCalculator

inductive EvalError where
  | empty
  | unexpectedChar (c : Char)
  | malformedNumber (text : Text)
  | malformedExpression
  | notFinite
deriving DecidableEq

instance decidableEqOutcome {ε α : Type} [DecidableEq ε] [DecidableEq α] :
    DecidableEq (Except ε α)
  | .ok x, .ok y => decidable_of_iff (x = y) (by simp)
  | .error x, .error y => decidable_of_iff (x = y) (by simp)
  | .ok _, .error _ => isFalse (by simp)
  | .error _, .ok _ => isFalse (by simp)

def EvalError.message (cause : EvalError) (visible : Char → Bool := isVisible) : String :=
  match cause with
  | empty => "entrée vide"
  | unexpectedChar c => "caractère inattendu: '" ++ String.singleton c ++ "'"
  | malformedNumber text => "nombre invalide: " ++ quoted visible text
  | malformedExpression => "expression invalide"
  | notFinite => "résultat non fini"

end DeskCalculator
