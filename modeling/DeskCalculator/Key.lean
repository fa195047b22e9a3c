import DeskCalculator.Text

/-!
The keys of the calculator and their labels. An operator's label is also its glyph on the
display. A key typed on a keyboard is the one whose label is the character, and a few usual
spellings of a point, a product and a quotient are taken as well.
-/

namespace DeskCalculator

inductive Operator where
  | plus
  | minus
  | times
  | divide
  | modulo
deriving DecidableEq

namespace Operator

def all : List Operator := [plus, minus, times, divide, modulo]

def glyph : Operator → Char
  | plus => '+'
  | minus => '-'
  | times => 'x'
  | divide => '÷'
  | modulo => '%'

def ofGlyph? (c : Char) : Option Operator := all.find? (·.glyph = c)

theorem ofGlyph?_glyph (op : Operator) : ofGlyph? op.glyph = some op := by
  cases op <;> decide

theorem ofGlyph?_eq_some (c : Char) (op : Operator) (found : ofGlyph? c = some op) :
    op.glyph = c := by
  simpa using List.find?_some found

end Operator

def isOperator (c : Char) : Bool := (Operator.ofGlyph? c).isSome

inductive Key where
  | digit (n : Nat)
  | point
  | operator (op : Operator)
  | clear
  | backspace
  | sign
  | equals
deriving DecidableEq

namespace Key

/-- The character of a digit key; the keypad has none past nine. -/
def digitGlyph (n : Nat) : Char := (min n 9).digitChar

def label : Key → Text
  | digit n => [digitGlyph n]
  | point => ['.']
  | operator op => [op.glyph]
  | clear => ['A', 'C']
  | backspace => ['⏎']
  | sign => ['+', '/', '-']
  | equals => ['=']

def ofGlyph? (c : Char) : Option Key :=
  if c = '.' then some point
  else if c = '⏎' then some backspace
  else if c = '=' then some equals
  else if c.isDigit then some (digit (c.toNat - '0'.toNat))
  else (Operator.ofGlyph? c).map operator

/-- The key with the given label. -/
def ofLabel? : Text → Option Key
  | [c] => ofGlyph? c
  | text =>
    if text = clear.label then some clear
    else if text = sign.label then some sign
    else none

/-- The key for a character typed on a keyboard. -/
def ofTyped? (c : Char) : Option Key :=
  if c = ',' then some point
  else if c = '*' ∨ c = 'X' ∨ c = '×' then some (operator .times)
  else if c = '/' then some (operator .divide)
  else ofLabel? [c]

def isOperator : Key → Bool
  | operator _ => true
  | _ => false

end Key

end DeskCalculator
