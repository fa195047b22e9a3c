import DeskCalculator.Decimal
import DeskCalculator.Text

/-!
Decimals written out. Only the digits up to the last nonzero one are written, with a point in
its place where the number of zeros stays small, and otherwise behind the first digit with
the exponent after an `e`.
-/

namespace DeskCalculator

def digitsOf (n : Nat) : Text := Nat.toDigits 10 n

def textOfInt (n : Int) : Text :=
  if n < 0 then '-' :: digitsOf n.natAbs else digitsOf n.natAbs

def pointed (fraction : Text) : Text :=
  if fraction.isEmpty then [] else '.' :: fraction

namespace Decimal

def writtenDigits (d : Decimal) : Text :=
  ((digitsOf d.digits).reverse.dropWhile (· == '0')).reverse

/-- The leading exponents written with the point in its place. -/
def isPlain (d : Decimal) : Bool := decide (-6 ≤ d.leading) && decide (d.leading ≤ 15)

def plainText (d : Decimal) : Text :=
  let digits := d.writtenDigits
  if d.leading < 0 then
    '0' :: pointed (List.replicate (-d.leading - 1).toNat '0' ++ digits)
  else
    let count := d.leading.toNat + 1
    (digits.take count).rightpad count '0' ++ pointed (digits.drop count)

def scientificText (d : Decimal) : Text :=
  let digits := d.writtenDigits
  digits.take 1 ++ pointed (digits.drop 1) ++ 'e' :: textOfInt d.leading

/-- The decimal as it is shown. Zero is shown without a sign. -/
def text (d : Decimal) : Text :=
  if d.digits = 0 then ['0']
  else
    let unsigned := if d.isPlain then d.plainText else d.scientificText
    if d.negative then '-' :: unsigned else unsigned

end Decimal

end DeskCalculator
