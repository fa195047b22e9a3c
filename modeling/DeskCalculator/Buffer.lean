import DeskCalculator.Evaluation
import DeskCalculator.Key

/-!
The buffer is the text on the display, and each key makes the next buffer from it. Operators
cut the buffer into pieces, the last of which is the number being typed; a sign that follows
an exponent mark is part of its number and cuts nothing.
-/

namespace DeskCalculator

abbrev Buffer := Text

namespace Buffer

def initial : Buffer := ['0']

/-- Whether `c` cuts the buffer, given the character before it. -/
def isSeparator (before : Option Char) (c : Char) : Bool :=
  isOperator c && !(isSign c && before.any isExponentMark)

/-- The pieces of a text, given the character before it. There is always a first one, empty
when the text starts with a separator. -/
def piecesAfter (before : Option Char) : Text → Text × List Text
  | [] => ([], [])
  | c :: rest =>
    let (first, others) := piecesAfter (some c) rest
    if isSeparator before c then ([], first :: others) else (c :: first, others)

def pieces (buffer : Buffer) : List Text :=
  let (first, others) := piecesAfter none buffer
  first :: others

def segment (buffer : Buffer) : Text :=
  let (first, others) := piecesAfter none buffer
  others.getLastD first

def endsInOperator (buffer : Buffer) : Bool := buffer.getLast?.any isOperator

def takesPoint (buffer : Buffer) : Bool :=
  !(segment buffer).any fun c => c == '.' || isExponentMark c

/-- An operator replaces the one before it, but a sign alone stays a sign. -/
def pressOperator (buffer : Buffer) (op : Operator) : Buffer :=
  if buffer = ['-'] then buffer
  else if endsInOperator buffer then buffer.dropLast ++ [op.glyph]
  else buffer ++ [op.glyph]

def toggleSign : Buffer → Buffer
  | [] => ['-']
  | c :: rest =>
    if c = '-' then if rest.isEmpty then initial else rest
    else '-' :: c :: rest

def backspace (buffer : Buffer) : Buffer :=
  if buffer.dropLast.isEmpty then initial else buffer.dropLast

/-- What a digit or a point is added to: nothing, when the buffer is only the zero. -/
def typingBase (buffer : Buffer) : Buffer := if buffer = initial then [] else buffer

/-- A text without a result stays on the display as it is. -/
def result (buffer : Buffer) : Buffer :=
  match evaluate buffer with
  | .ok text => text
  | .error _ => buffer

def press (buffer : Buffer) : Key → Buffer
  | .digit n => typingBase buffer ++ [Key.digitGlyph n]
  | .point =>
    let base := typingBase buffer
    if takesPoint base then base ++ ['.'] else base
  | .operator op => pressOperator buffer op
  | .clear => initial
  | .backspace => backspace buffer
  | .sign => toggleSign buffer
  | .equals => result buffer

def pressAll (buffer : Buffer) (keys : List Key) : Buffer := keys.foldl press buffer

theorem pressAll_append (buffer : Buffer) (keys more : List Key) :
    pressAll buffer (keys ++ more) = pressAll (pressAll buffer keys) more :=
  List.foldl_append

theorem result_of_ok (buffer : Buffer) (text : Text) (evaluated : evaluate buffer = .ok text) :
    result buffer = text := by
  rw [result, evaluated]

theorem result_of_error (buffer : Buffer) (problem : EvalError)
    (evaluated : evaluate buffer = .error problem) : result buffer = buffer := by
  rw [result, evaluated]

end Buffer

end DeskCalculator
