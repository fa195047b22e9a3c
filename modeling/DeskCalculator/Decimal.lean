import DeskCalculator.Binary

/-!
Decimals: a sign, digits read as a natural number, and a power of ten. A decimal is read as
the binary number nearest to its exact value, and a binary number is shown either rounded to
a count of significant digits or by the shortest decimal that reads back.
-/

namespace DeskCalculator

structure Decimal where
  negative : Bool
  digits : Nat
  exponent : Int
deriving DecidableEq

namespace Decimal

variable {f : BinaryFormat}

def magnitude (d : Decimal) : Rat := d.digits * (10 : Rat) ^ d.exponent

def toRat (d : Decimal) : Rat :=
  if d.negative then -d.magnitude else d.magnitude

def leading (d : Decimal) : Int := natExponent 10 d.digits + d.exponent

/--
The number nearest to the decimal. A decimal of great exponent is settled without writing
out its power of ten: ten exceeds the third power of two, so a leading exponent that is a
third of the format's limit already overflows, and one that far below the least positive
value leaves less than half of it.
-/
def nearest (d : Decimal) : Number f :=
  if d.digits = 0 then .zero d.negative
  else if f.exponentLimit ≤ 3 * d.leading then .infinity d.negative
  else if 3 * (d.leading + 1) < f.leastExponent then .zero d.negative
  else .ofMagnitude d.negative d.magnitude

def significant (count : Nat) (negative : Bool) (q : Rat) : Decimal :=
  let place := leadingExponent 10 q - (count - 1 : Nat)
  ⟨negative, (nearestMultiple 10 place q).toNat, place⟩

def readsAs (x : FiniteNumber f) (d : Decimal) : Bool := d.nearest = Number.finite x

/--
The neighbour of `x` on the grid of `count` significant digits that reads back as `x`; when
both do, the nearer one.
-/
def neighbour? (x : FiniteNumber f) (count : Nat) : Option Decimal :=
  let place := leadingExponent 10 x.magnitude - (count - 1 : Nat)
  let steps := x.magnitude / (10 : Rat) ^ place
  let below : Decimal := ⟨x.negative, steps.floor.toNat, place⟩
  let above : Decimal := ⟨x.negative, steps.floor.toNat + 1, place⟩
  match below.readsAs x, above.readsAs x with
  | true, true => if steps - steps.floor < 1 / 2 then some below else some above
  | true, false => some below
  | false, true => some above
  | false, false => none

/--
The shortest decimal that reads back as a nonzero `x`. A grid with a point in the interval of
rationals that round to `x` has a neighbour of `x` in it, so the two neighbours are all that
need be tried. On the finest grid tried, spaced closer than the format, the nearest point
always reads back.
-/
def shortest (x : FiniteNumber f) : Decimal :=
  let finest := natExponent 10 (f.binade * 2) + 2
  match ((List.range finest).map (· + 1)).findSome? (neighbour? x) with
  | some d => d
  | none => significant finest x.negative x.magnitude

end Decimal

end DeskCalculator
