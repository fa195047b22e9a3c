import DeskCalculator.Arithmetic

/-!
The four operations of an infix expression. Multiplication and division bind tighter than
addition and subtraction, and operations of one precedence are taken from the left.
-/

namespace DeskCalculator

inductive Operation where
  | add
  | subtract
  | multiply
  | divide
deriving DecidableEq

namespace Operation

def all : List Operation := [add, subtract, multiply, divide]

def symbol : Operation → Char
  | add => '+'
  | subtract => '-'
  | multiply => '*'
  | divide => '/'

def ofSymbol? (c : Char) : Option Operation := all.find? (·.symbol = c)

def precedence : Operation → Nat
  | add | subtract => 1
  | multiply | divide => 2

def apply {f : BinaryFormat} : Operation → Number f → Number f → Number f
  | add, x, y => x + y
  | subtract, x, y => x - y
  | multiply, x, y => x * y
  | divide, x, y => x / y

theorem ofSymbol?_symbol (op : Operation) : ofSymbol? op.symbol = some op := by
  cases op <;> decide

theorem ofSymbol?_eq_some (c : Char) (op : Operation) (found : ofSymbol? c = some op) :
    op.symbol = c := by
  simpa using List.find?_some found

end Operation

end DeskCalculator
