import DeskCalculator.Binary

/-!
Arithmetic on floating-point numbers. A finite result is the exact rational result rounded
once; what remains to be fixed by cases is the sign of a zero and the share of infinities
and NaN. The remainder is the exact one with the quotient truncated, so it rounds nothing.
-/

namespace DeskCalculator

variable {f : BinaryFormat}

namespace FiniteNumber

/-- A sum of zero is negative only when both terms are. -/
def add (x y : FiniteNumber f) : Number f :=
  .ofRat (x.negative && y.negative) (x.toRat + y.toRat)

def mul (x y : FiniteNumber f) : Number f :=
  .ofMagnitude (x.negative != y.negative) (x.magnitude * y.magnitude)

def div (x y : FiniteNumber f) : Number f :=
  if y.isZero then
    if x.isZero then .nan else .infinity (x.negative != y.negative)
  else .ofMagnitude (x.negative != y.negative) (x.magnitude / y.magnitude)

/-- What is left of `x` after the whole multiples of `y` that fit into it, with the sign of
`x`. -/
def remainder (x y : FiniteNumber f) : Number f :=
  if y.isZero then .nan
  else
    let fitting : Int := (x.magnitude / y.magnitude).floor
    .ofMagnitude x.negative (x.magnitude - fitting * y.magnitude)

end FiniteNumber

namespace Number

def neg : Number f → Number f
  | nan => nan
  | infinity negative => infinity !negative
  | finite x => finite x.neg

def add : Number f → Number f → Number f
  | nan, _ => nan
  | _, nan => nan
  | infinity a, infinity b => if a = b then infinity a else nan
  | infinity a, finite _ => infinity a
  | finite _, infinity b => infinity b
  | finite x, finite y => x.add y

def mul : Number f → Number f → Number f
  | nan, _ => nan
  | _, nan => nan
  | infinity a, infinity b => infinity (a != b)
  | infinity a, finite y => if y.isZero then nan else infinity (a != y.negative)
  | finite x, infinity b => if x.isZero then nan else infinity (x.negative != b)
  | finite x, finite y => x.mul y

def div : Number f → Number f → Number f
  | nan, _ => nan
  | _, nan => nan
  | infinity _, infinity _ => nan
  | infinity a, finite y => infinity (a != y.negative)
  | finite x, infinity b => zero (x.negative != b)
  | finite x, finite y => x.div y

/-- The order of values: both zeros are equal and a NaN compares with nothing. -/
def le : Number f → Number f → Bool
  | nan, _ => false
  | _, nan => false
  | infinity true, _ => true
  | _, infinity negative => !negative
  | infinity false, finite _ => false
  | finite x, finite y => decide (x.toRat ≤ y.toRat)

def lt (x y : Number f) : Bool := le x y && !le y x

instance : Neg (Number f) := ⟨neg⟩

instance : Add (Number f) := ⟨add⟩

instance : Sub (Number f) := ⟨fun x y => x + -y⟩

instance : Mul (Number f) := ⟨mul⟩

instance : Div (Number f) := ⟨div⟩

end Number

end DeskCalculator
