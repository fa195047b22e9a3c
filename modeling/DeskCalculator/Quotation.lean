import DeskCalculator.Text
import DeskCalculator.Visible

/-!
Text between quotation marks. The characters that would end the quotation or not be seen in it
are escaped, so a quotation is one line whatever the text holds. Which characters are seen is a
matter of the Unicode version, and so is given.
-/

namespace DeskCalculator

def escapeLetter? (c : Char) : Option Char :=
  [('\x00', '0'), ('\t', 't'), ('\n', 'n'), ('\r', 'r'), ('"', '"'), ('\\', '\\')].lookup c

variable (visible : Char → Bool)

def escaped (c : Char) : Text :=
  match escapeLetter? c with
  | some letter => ['\\', letter]
  | none =>
    if visible c then [c] else ['\\', 'u', '{'] ++ Nat.toDigits 16 c.toNat ++ ['}']

def quoted (text : Text) : String :=
  String.ofList ('"' :: text.flatMap (escaped visible) ++ ['"'])

end DeskCalculator
