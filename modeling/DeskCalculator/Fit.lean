import DeskCalculator.Arithmetic
import DeskCalculator.Text

/-!
How the display makes room for its text: a smaller font for a long text, and a scale for one
that is still too wide, down to a half and no further.
-/

namespace DeskCalculator.Fit

def fontSize (text : Text) : Nat := if 20 < text.length then 50 else 70

def half : Single := .ofRat false (1 / 2)

def one : Single := .ofRat false 1

/-- The scale at which a text of the given width fits into the width available. A width that
is no number is not compared with anything and comes out as it is. -/
def scale (width available : Single) : Single :=
  if width.le available || width.le (.zero false) then one
  else
    let quotient := available / width
    if quotient.lt half then half
    else if one.lt quotient then one
    else quotient

end DeskCalculator.Fit
