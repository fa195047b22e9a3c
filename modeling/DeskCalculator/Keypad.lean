import DeskCalculator.Key

/-!
The keypad: twenty keys in five rows, each once, and the colours of their buttons.
-/

namespace DeskCalculator.Keypad

structure Colour where
  red : Nat
  green : Nat
  blue : Nat
deriving DecidableEq

def orange : Colour := ⟨255, 149, 0⟩

def gray : Colour := ⟨80, 80, 80⟩

def rows : List (List Key) :=
  [[.backspace, .clear, .operator .modulo, .operator .divide],
    [.digit 7, .digit 8, .digit 9, .operator .times],
    [.digit 4, .digit 5, .digit 6, .operator .minus],
    [.digit 1, .digit 2, .digit 3, .operator .plus],
    [.sign, .digit 0, .point, .equals]]

def keys : List Key := rows.flatten

/-- The four operations and the equals key stand out; the percent key does not. -/
def colour : Key → Colour
  | .operator .modulo => gray
  | .operator _ => orange
  | .equals => orange
  | _ => gray

end DeskCalculator.Keypad
