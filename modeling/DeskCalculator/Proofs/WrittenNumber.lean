import DeskCalculator.Proofs.LeadingExponent
import DeskCalculator.Proofs.LiteralGrammar
import DeskCalculator.Proofs.ShownText
import Mathlib.Tactic.Ring

/-!
The exact number that a text writes, said by its parts: digits with a point shifted by an
exponent, and a sign. The reader finds this number, and the text of a decimal writes the
decimal, so a decimal that is shown can be read back.
-/

namespace DeskCalculator

/-- The power that an exponent stands for; without an exponent it is zero. -/
def IsExponentOf (exponent : Text) (power : Int) : Prop :=
  (exponent = [] ∧ power = 0) ∨ ∃ mark sign digits, exponent = mark :: (sign ++ digits) ∧
    (mark = 'e' ∨ mark = 'E') ∧ IsSignPart sign ∧ digits ≠ [] ∧
    (∀ c ∈ digits, c.isDigit = true) ∧
    power = if sign = ['-'] then -(digitsValue digits : Int) else digitsValue digits

/-- The text is a number without a sign, and `magnitude` is its value. -/
def DenotesMagnitude (text : Text) (magnitude : Rat) : Prop :=
  ∃ whole fraction exponent power, text = whole ++ pointPart fraction ++ exponent ∧
    (∀ c ∈ whole, c.isDigit = true) ∧ (∀ c ∈ fraction.getD [], c.isDigit = true) ∧
    whole ++ fraction.getD [] ≠ [] ∧ IsExponentOf exponent power ∧
    magnitude = digitsValue (whole ++ fraction.getD []) / (10 : Rat) ^ (fraction.getD []).length *
      (10 : Rat) ^ power

/-- The text is a number, and `value` is exactly what it writes. -/
def Denotes (text : Text) (value : Rat) : Prop :=
  ∃ sign unsigned magnitude, text = sign ++ unsigned ∧ IsSignPart sign ∧
    DenotesMagnitude unsigned magnitude ∧
    value = if sign = ['-'] then -magnitude else magnitude

theorem IsExponentOf.isExponentPart {exponent : Text} {power : Int}
    (stands : IsExponentOf exponent power) : IsExponentPart exponent := by
  rcases stands with ⟨none, _⟩ | ⟨mark, sign, digits, split, marked, signPart, present, inside, _⟩
  · exact Or.inl none
  · exact Or.inr ⟨mark, sign, digits, split, marked, signPart, present, inside⟩

theorem exponentValue?_of_isExponentOf (exponent : Text) (power : Int)
    (stands : IsExponentOf exponent power) : exponentValue? exponent = some power := by
  rcases stands with ⟨rfl, rfl⟩ | ⟨mark, sign, digits, rfl, marked, signPart, present, inside, rfl⟩
  · rfl
  · have split := splitSign_signPart sign digits signPart
      (by simpa using stopsSign_digits digits [] present inside)
    simp [exponentValue?, split, isExponentMark_iff.mpr marked, present,
      List.all_eq_true.mpr inside]

theorem IsExponentPart.isExponentOf {exponent : Text} (part : IsExponentPart exponent) :
    ∃ power, IsExponentOf exponent power := by
  rcases part with rfl | ⟨mark, sign, digits, split, marked, signPart, present, inside⟩
  · exact ⟨0, Or.inl ⟨rfl, rfl⟩⟩
  · exact ⟨_, Or.inr ⟨mark, sign, digits, split, marked, signPart, present, inside, rfl⟩⟩

/-- The reader finds the number that is written, with its sign. -/
theorem ofText?_of_denotesMagnitude (sign unsigned : Text) (magnitude : Rat)
    (signPart : IsSignPart sign) (written : DenotesMagnitude unsigned magnitude) :
    ∃ d : Decimal, Decimal.ofText? (sign ++ unsigned) = some d ∧
      d.negative = decide (sign = ['-']) ∧ d.magnitude = magnitude := by
  obtain ⟨whole, fraction, exponent, power, rfl, wholeDigits, fractionDigits, present, stands,
    rfl⟩ := written
  have read := ofText?_parts sign whole fraction exponent signPart wholeDigits fractionDigits
    present stands.isExponentPart
  rw [exponentValue?_of_isExponentOf exponent power stands] at read
  refine ⟨_, read, rfl, ?_⟩
  rw [Decimal.magnitude, zpow_sub₀ (by norm_num), zpow_natCast]
  ring

theorem denotes_iff (text : Text) (value : Rat) :
    Denotes text value ↔ ∃ d : Decimal, Decimal.ofText? text = some d ∧ d.toRat = value := by
  constructor
  · rintro ⟨sign, unsigned, magnitude, rfl, signPart, written, rfl⟩
    obtain ⟨d, read, negative, same⟩ :=
      ofText?_of_denotesMagnitude sign unsigned magnitude signPart written
    refine ⟨d, read, ?_⟩
    rw [Decimal.toRat, negative, same]
    simp
  · rintro ⟨d, read, rfl⟩
    obtain ⟨sign, mantissa, exponent, rfl, signPart, isMantissa, part⟩ :=
      (ofText?_isSome_iff text).mp (by rw [read]; rfl)
    obtain ⟨whole, fraction, rfl, wholeDigits, fractionDigits, present⟩ :=
      mantissa_parts mantissa isMantissa
    obtain ⟨power, stands⟩ := part.isExponentOf
    have written : DenotesMagnitude (whole ++ pointPart fraction ++ exponent) _ :=
      ⟨whole, fraction, exponent, power, rfl, wholeDigits, fractionDigits, present, stands, rfl⟩
    obtain ⟨e, again, negative, same⟩ := ofText?_of_denotesMagnitude sign _ _ signPart written
    rw [read, Option.some.injEq] at again
    subst again
    refine ⟨sign, _, _, rfl, signPart, written, ?_⟩
    rw [Decimal.toRat, negative, same]
    simp

theorem Denotes.unique {text : Text} {v w : Rat} (left : Denotes text v)
    (right : Denotes text w) : v = w := by
  obtain ⟨d, leftRead, rfl⟩ := (denotes_iff text v).mp left
  obtain ⟨e, rightRead, rfl⟩ := (denotes_iff text w).mp right
  rw [leftRead, Option.some.injEq] at rightRead
  rw [rightRead]

theorem digitsValue_digitsOf (n : Nat) : digitsValue (digitsOf n) = n :=
  Nat.ofDigitChars_ten_toDigits

theorem digitsValue_append_zeros (digits : Text) (count : Nat) :
    digitsValue (digits ++ List.replicate count '0') = digitsValue digits * 10 ^ count := by
  rw [digitsValue, Nat.ofDigitChars_append, Nat.ofDigitChars_replicate_zero, Nat.mul_comm]
  rfl

theorem length_digitsOf (n : Nat) (nonzero : n ≠ 0) :
    (digitsOf n).length = natExponent 10 n + 1 := by
  have bounds := natExponent_bounds 10 n (by norm_num) (Nat.pos_of_ne_zero nonzero)
  apply le_antisymm
  · exact (Nat.length_toDigits_le_iff (by norm_num) (Nat.succ_pos _)).mpr bounds.2
  · by_contra short
    have few : (digitsOf n).length ≤ natExponent 10 n := by omega
    have exponent : 0 < natExponent 10 n := by
      have present := Nat.length_toDigits_pos (b := 10) (n := n)
      rw [digitsOf] at few
      omega
    have small := (Nat.length_toDigits_le_iff (by norm_num) exponent).mp few
    omega

theorem exponentOf_textOfInt (n : Int) : IsExponentOf ('e' :: textOfInt n) n := by
  right
  have present : digitsOf n.natAbs ≠ [] := Nat.toDigits_ne_nil
  have inside := digitsOf_isDigit n.natAbs
  by_cases negative : n < 0
  · refine ⟨'e', ['-'], digitsOf n.natAbs, ?_, Or.inl rfl, Or.inr (Or.inr rfl), present, inside, ?_⟩
    · rw [textOfInt, if_pos negative]
      rfl
    · rw [if_pos rfl, digitsValue_digitsOf]
      omega
  · refine ⟨'e', [], digitsOf n.natAbs, ?_, Or.inl rfl, Or.inl rfl, present, inside, ?_⟩
    · rw [textOfInt, if_neg negative]
      rfl
    · rw [if_neg (by simp), digitsValue_digitsOf]
      omega

theorem pointed_eq (fraction : Text) :
    ∃ part : Option Text, pointed fraction = pointPart part ∧ part.getD [] = fraction := by
  cases fraction with
  | nil => exact ⟨none, rfl, rfl⟩
  | cons c rest => exact ⟨some (c :: rest), rfl, rfl⟩

theorem denotesMagnitude_pointed (whole fraction exponent : Text) (power : Int)
    (wholeDigits : ∀ c ∈ whole, c.isDigit = true)
    (fractionDigits : ∀ c ∈ fraction, c.isDigit = true) (present : whole ++ fraction ≠ [])
    (stands : IsExponentOf exponent power) :
    DenotesMagnitude (whole ++ pointed fraction ++ exponent)
      (digitsValue (whole ++ fraction) * (10 : Rat) ^ (power - fraction.length)) := by
  obtain ⟨part, split, rfl⟩ := pointed_eq fraction
  rw [split]
  refine ⟨whole, part, exponent, power, rfl, wholeDigits, fractionDigits, present, stands, ?_⟩
  rw [zpow_sub₀ (by norm_num), zpow_natCast]
  ring

theorem denotesMagnitude_split (digits : Text) (count : Nat)
    (inside : ∀ c ∈ digits, c.isDigit = true) (present : digits ≠ [])
    (within : count ≤ digits.length) :
    DenotesMagnitude (digits.take count ++ pointed (digits.drop count))
      (digitsValue digits * (10 : Rat) ^ ((count : Int) - digits.length)) := by
  have pointedText := denotesMagnitude_pointed (digits.take count) (digits.drop count) [] 0
    (fun c member => inside c (List.mem_of_mem_take member))
    (fun c member => inside c (List.mem_of_mem_drop member))
    (by rwa [List.take_append_drop]) (Or.inl ⟨rfl, rfl⟩)
  have place : (0 : Int) - (digits.drop count).length = count - digits.length := by
    rw [List.length_drop]
    omega
  rwa [List.take_append_drop, place, List.append_nil] at pointedText

theorem denotesMagnitude_filled (digits : Text) (count : Nat)
    (inside : ∀ c ∈ digits, c.isDigit = true) (present : digits ≠ [])
    (filled : digits.length ≤ count) :
    DenotesMagnitude (digits ++ List.replicate (count - digits.length) '0')
      (digitsValue digits * (10 : Rat) ^ ((count : Int) - digits.length)) := by
  have places : (count : Int) - digits.length = (count - digits.length : Nat) := by omega
  rw [places, zpow_natCast]
  generalize count - digits.length = zeros
  have pointedText := denotesMagnitude_pointed (digits ++ List.replicate zeros '0') [] [] 0
    (by
      intro c member
      rcases List.mem_append.mp member with digit | zero
      · exact inside c digit
      · rw [List.eq_of_mem_replicate zero]
        rfl)
    (by simp) (by simp [present]) (Or.inl ⟨rfl, rfl⟩)
  simpa [pointed, digitsValue_append_zeros] using pointedText

namespace Decimal

theorem writtenDigits_split (d : Decimal) :
    ∃ zeros, digitsOf d.digits = d.writtenDigits ++ List.replicate zeros '0' := by
  let reversed := (digitsOf d.digits).reverse
  have split : (reversed.takeWhile (· == '0')) ++ reversed.dropWhile (· == '0') = reversed :=
    List.takeWhile_append_dropWhile
  have allZero : ∀ c ∈ (reversed.takeWhile (· == '0')).reverse, c = '0' := by
    intro c member
    simpa using takeWhile_inside (· == '0') reversed c (List.mem_reverse.mp member)
  refine ⟨(reversed.takeWhile (· == '0')).reverse.length, ?_⟩
  rw [← List.eq_replicate_of_mem allZero]
  change digitsOf d.digits = (reversed.dropWhile (· == '0')).reverse ++ _
  rw [← List.reverse_append, split, List.reverse_reverse]

/-- The digits that are written stand from the leading place down. -/
theorem magnitude_written (d : Decimal) (nonzero : d.digits ≠ 0) :
    d.magnitude = digitsValue d.writtenDigits *
      (10 : Rat) ^ (d.leading + 1 - d.writtenDigits.length) := by
  obtain ⟨zeros, split⟩ := d.writtenDigits_split
  have length := length_digitsOf d.digits nonzero
  have value := digitsValue_digitsOf d.digits
  rw [split, List.length_append, List.length_replicate] at length
  rw [split, digitsValue_append_zeros] at value
  have place : d.leading + 1 - d.writtenDigits.length = zeros + d.exponent := by
    rw [leading]
    omega
  rw [magnitude, ← value, place, zpow_add₀ (by norm_num), zpow_natCast]
  push_cast
  ring

/-- Zeros behind the point stand for the places above the leading digit. -/
theorem plainText_denotes_small (d : Decimal) (nonzero : d.digits ≠ 0) (small : d.leading < 0) :
    DenotesMagnitude d.plainText d.magnitude := by
  let zeros := List.replicate (-d.leading - 1).toNat '0'
  have fractionDigits : ∀ c ∈ zeros ++ d.writtenDigits, c.isDigit = true := by
    intro c member
    rcases List.mem_append.mp member with zero | digit
    · rw [List.eq_of_mem_replicate zero]
      rfl
    · exact d.writtenDigits_isDigit c digit
  have pointedText := denotesMagnitude_pointed ['0'] (zeros ++ d.writtenDigits) [] 0 (by simp)
    fractionDigits (by simp) (Or.inl ⟨rfl, rfl⟩)
  have value : digitsValue (['0'] ++ (zeros ++ d.writtenDigits)) = digitsValue d.writtenDigits :=
    digitsValue_zeros ('0' :: zeros) d.writtenDigits (by simp [zeros])
  have place : (0 : Int) - (zeros ++ d.writtenDigits).length =
      d.leading + 1 - d.writtenDigits.length := by
    rw [List.length_append, List.length_replicate]
    omega
  rw [value, place, List.append_nil] at pointedText
  rw [d.magnitude_written nonzero, plainText, if_pos small]
  exact pointedText

/-- The point stands behind the leading digit and the places down to the units, which zeros
fill where the digits that are written end before them. -/
theorem plainText_denotes_large (d : Decimal) (nonzero : d.digits ≠ 0) (large : 0 ≤ d.leading) :
    DenotesMagnitude d.plainText d.magnitude := by
  have digits := d.writtenDigits_isDigit
  obtain ⟨lead, rest, shape, _⟩ := d.writtenDigits_nonzero nonzero
  have present : d.writtenDigits ≠ [] := by simp [shape]
  have places : ((d.leading.toNat + 1 : Nat) : Int) = d.leading + 1 := by omega
  rw [d.magnitude_written nonzero, plainText, if_neg (by omega), ← places]
  rcases Nat.lt_or_ge (d.leading.toNat + 1) d.writtenDigits.length with inside | filled
  · have taken : (d.writtenDigits.take (d.leading.toNat + 1)).length = d.leading.toNat + 1 := by
      rw [List.length_take]
      omega
    simpa [List.rightpad, taken] using
      denotesMagnitude_split _ (d.leading.toNat + 1) digits present inside.le
  · dsimp only
    rw [List.take_of_length_le filled, List.drop_of_length_le filled]
    exact (List.append_nil _).symm ▸ denotesMagnitude_filled _ _ digits present filled

theorem scientificText_denotes (d : Decimal) (nonzero : d.digits ≠ 0) :
    DenotesMagnitude d.scientificText d.magnitude := by
  have digits := d.writtenDigits_isDigit
  obtain ⟨lead, rest, shape, _⟩ := d.writtenDigits_nonzero nonzero
  have pointedText := denotesMagnitude_pointed (d.writtenDigits.take 1) (d.writtenDigits.drop 1)
    ('e' :: textOfInt d.leading) d.leading
    (fun c member => digits c (List.mem_of_mem_take member))
    (fun c member => digits c (List.mem_of_mem_drop member))
    (by rw [List.take_append_drop, shape]; simp) (exponentOf_textOfInt d.leading)
  have place : d.leading - (d.writtenDigits.drop 1).length =
      d.leading + 1 - d.writtenDigits.length := by
    rw [shape, List.drop_one, List.tail_cons, List.length_cons]
    omega
  rw [List.take_append_drop, place] at pointedText
  rw [d.magnitude_written nonzero]
  exact pointedText

theorem ofText?_text (d : Decimal) (nonzero : d.digits ≠ 0) :
    ∃ e : Decimal, ofText? d.text = some e ∧ e.negative = d.negative ∧
      e.magnitude = d.magnitude := by
  have written : DenotesMagnitude (if d.isPlain then d.plainText else d.scientificText)
      d.magnitude := by
    split
    · rcases lt_or_ge d.leading 0 with small | large
      · exact d.plainText_denotes_small nonzero small
      · exact d.plainText_denotes_large nonzero large
    · exact d.scientificText_denotes nonzero
  rw [text, if_neg nonzero]
  cases negative : d.negative with
  | false =>
      exact ofText?_of_denotesMagnitude [] _ _ (Or.inl rfl) written
  | true =>
      exact ofText?_of_denotesMagnitude ['-'] _ _ (Or.inr (Or.inr rfl)) written

theorem text_denotes (d : Decimal) : Denotes d.text d.toRat := by
  rw [denotes_iff]
  by_cases zero : d.digits = 0
  · refine ⟨⟨false, 0, 0⟩, ?_, ?_⟩
    · rw [text, if_pos zero]
      rfl
    · simp [toRat, magnitude, zero]
  · obtain ⟨e, read, negative, same⟩ := d.ofText?_text zero
    exact ⟨e, read, by rw [toRat, toRat, negative, same]⟩

end Decimal

end DeskCalculator
