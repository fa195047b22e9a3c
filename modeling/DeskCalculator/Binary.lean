import DeskCalculator.Rounding

/-!
Binary floating point, exact. The non-negative finite values of a format are numbered in
increasing order from zero; a value is its sign and its rank in that order, and the rank is
also what the interchange layout stores beside the sign. Values are rationals, and every
operation elsewhere is one exact rational result followed by one rounding.
-/

namespace DeskCalculator

/--
A format is the count of bits it stores of a significand, whose leading one is implied, and
of an exponent.
-/
structure BinaryFormat where
  fractionBits : Nat
  exponentBits : Nat
deriving DecidableEq

namespace BinaryFormat

def double : BinaryFormat := ⟨52, 11⟩

def single : BinaryFormat := ⟨23, 8⟩

variable (f : BinaryFormat)

/-- The count of values that share one exponent. -/
def binade : Nat := 1 <<< f.fractionBits

def infinityRank : Nat := (1 <<< f.exponentBits - 1) * f.binade

def exponentLimit : Nat := 1 <<< (f.exponentBits - 1)

/-- The exponent of the least positive value, of which all values are multiples. -/
def leastExponent : Int := 2 - f.exponentLimit - f.fractionBits

def leastPositive : Rat := (2 : Rat) ^ f.leastExponent

/--
How many least positive values make up the value of a rank. The first binade is spaced like
the second one; from there the spacing doubles with each binade.
-/
def units (rank : Nat) : Nat :=
  if rank / f.binade = 0 then rank % f.binade
  else (rank % f.binade + f.binade) <<< (rank / f.binade - 1)

def magnitude (rank : Nat) : Rat := f.units rank * f.leastPositive

/--
The rank nearest to a non-negative rational, ties to the even rank. A significand that
rounds up to the next power of two carries into the next binade by the addition.
-/
def nearestRank (q : Rat) : Nat :=
  if q = 0 then 0
  else
    let units := q / f.leastPositive
    let place := (leadingExponent 2 units - f.fractionBits).toNat
    place * f.binade + (nearestMultiple 2 place units).toNat

end BinaryFormat

structure FiniteNumber (f : BinaryFormat) where
  negative : Bool
  rank : Nat
  bounded : rank < f.infinityRank
deriving DecidableEq

inductive Number (f : BinaryFormat) where
  | nan
  | infinity (negative : Bool)
  | finite (x : FiniteNumber f)
deriving DecidableEq

abbrev Double := Number .double

abbrev Single := Number .single

variable {f : BinaryFormat}

namespace FiniteNumber

def magnitude (x : FiniteNumber f) : Rat := f.magnitude x.rank

def toRat (x : FiniteNumber f) : Rat :=
  if x.negative then -x.magnitude else x.magnitude

def isZero (x : FiniteNumber f) : Bool := x.rank = 0

def neg (x : FiniteNumber f) : FiniteNumber f := { x with negative := !x.negative }

end FiniteNumber

namespace Number

/-- The value with the given sign whose magnitude is nearest to `q`; past half a step beyond
the greatest finite value that is an infinity. -/
def ofMagnitude (negative : Bool) (q : Rat) : Number f :=
  if bounded : f.nearestRank q < f.infinityRank then
    .finite ⟨negative, f.nearestRank q, bounded⟩
  else .infinity negative

/-- The value nearest to `q`. A rational zero has no sign, so the sign of zero is given. -/
def ofRat (negativeZero : Bool) (q : Rat) : Number f :=
  if q = 0 then ofMagnitude negativeZero 0
  else ofMagnitude (decide (q < 0)) q.abs

def zero (negative : Bool) : Number f := ofMagnitude negative 0

def toFinite? : Number f → Option (FiniteNumber f)
  | finite x => some x
  | _ => none

/-- The sign bit is the highest; below it stands the rank, past the infinity a NaN. -/
def ofBits (bits : Nat) : Number f :=
  let signBit := f.binade <<< f.exponentBits
  let negative : Bool := bits / signBit % 2 = 1
  let rank := bits % signBit
  if bounded : rank < f.infinityRank then finite ⟨negative, rank, bounded⟩
  else if rank = f.infinityRank then infinity negative
  else nan

def toBits? : Number f → Option Nat
  | nan => none
  | infinity negative => some (place negative f.infinityRank)
  | finite x => some (place x.negative x.rank)
where
  place (negative : Bool) (rank : Nat) : Nat :=
    if negative then f.binade <<< f.exponentBits + rank else rank

end Number

end DeskCalculator
