import DeskCalculator.Proofs.DigitCount

/-!
The shape of a result. It is a zero without a sign, or a numeral with a minus exactly in front
of a negative one; the point stands in its place from a millionth up to the sixteenth power of
ten, and beyond that the numeral is scientific. Nothing superfluous is written, so a result fits
into twenty-three characters.
-/

namespace DeskCalculator

/-- The digits of an integer, with a minus in front of them where it is negative, and without a
plus or zeros at their head. -/
def IsIntegerNumeral (text : Text) (n : Int) : Prop :=
  ∃ digits, digits ≠ [] ∧ (∀ c ∈ digits, c.isDigit = true) ∧ digits.head? ≠ some '0' ∧
    ((text = digits ∧ n = digitsValue digits) ∨ (text = '-' :: digits ∧ n = -digitsValue digits))

/-- One digit other than zero, a fraction or none, and an exponent out of the plain range. -/
def IsScientificNumeral (text : Text) : Prop :=
  ∃ lead fraction exponent power, text = lead :: pointed fraction ++ 'e' :: exponent ∧
    lead.isDigit = true ∧ lead ≠ '0' ∧ (∀ c ∈ fraction, c.isDigit = true) ∧
    fraction.getLast? ≠ some '0' ∧ IsIntegerNumeral exponent power ∧
    (power ≤ -7 ∨ 16 ≤ power)

/-- The magnitudes that are written with the point in its place. -/
def IsPlainMagnitude (v : Rat) : Prop := (10 : Rat) ^ (-6 : Int) ≤ v ∧ v < (10 : Rat) ^ (16 : Int)

/-- Whether a number lies in the plain range, by comparing its magnitude with the numbers nearest
to the ends of the range. -/
def FiniteNumber.comparesPlain (y : FiniteNumber .double) : Bool :=
  let magnitude : Double := .finite { y with negative := false }
  Number.le (.ofRat false (10 ^ (-6 : Int))) magnitude &&
    Number.lt magnitude (.ofRat false (10 ^ (16 : Int)))

def isResultChar (c : Char) : Bool := c.isDigit || c == '.' || c == '-' || c == 'e'

/-- What is shown of a number with the value `value`. -/
structure IsResult (value : Rat) (shown : Text) : Prop where
  zero : shown = ['0'] ↔ value = 0
  numeral : value ≠ 0 → ∃ unsigned v,
    shown = (if value < 0 then '-' :: unsigned else unsigned) ∧ Denotes shown v ∧
      (IsPlainNumeral unsigned ↔ IsPlainMagnitude |v|) ∧
      (IsScientificNumeral unsigned ↔ ¬IsPlainMagnitude |v|)
  characters : ∀ c ∈ shown, isResultChar c = true
  short : shown.length ≤ 23

theorem isResultChar_of_isDigit {c : Char} (digit : c.isDigit = true) : isResultChar c = true := by
  simp [isResultChar, digit]

theorem mem_pointed {c : Char} {fraction : Text} (member : c ∈ pointed fraction) :
    c = '.' ∨ c ∈ fraction := by
  cases fraction with
  | nil => simp [pointed] at member
  | cons first rest => simpa [pointed] using member

theorem length_pointed_le (fraction : Text) : (pointed fraction).length ≤ fraction.length + 1 := by
  cases fraction <;> simp [pointed]

theorem textOfInt_numeral (n : Int) (nonzero : n ≠ 0) : IsIntegerNumeral (textOfInt n) n := by
  obtain ⟨lead, rest, split, leadNonzero⟩ := digitsOf_nonzero n.natAbs (by omega)
  refine ⟨digitsOf n.natAbs, by simp [split], digitsOf_isDigit n.natAbs, by simpa [split], ?_⟩
  rw [digitsValue_digitsOf, textOfInt]
  by_cases negative : n < 0
  · right
    exact ⟨by rw [if_pos negative], by omega⟩
  · left
    exact ⟨by rw [if_neg negative], by omega⟩

theorem textOfInt_shown (n : Int) : ∀ c ∈ textOfInt n, isResultChar c = true := by
  have digits := digitsOf_isDigit n.natAbs
  intro c member
  rw [textOfInt] at member
  split at member
  · rcases List.mem_cons.mp member with rfl | digit
    · rfl
    · exact isResultChar_of_isDigit (digits c digit)
  · exact isResultChar_of_isDigit (digits c member)

theorem length_textOfInt_le (n : Int) (low : -999 ≤ n) (high : n ≤ 999) :
    (textOfInt n).length ≤ if n < 0 then 4 else 3 := by
  have digits : (digitsOf n.natAbs).length ≤ 3 :=
    (Nat.length_toDigits_le_iff (by decide) (by decide)).mpr (by omega)
  rw [textOfInt]
  split
  · rw [List.length_cons]
    omega
  · exact digits

theorem IsPlainNumeral.characters {text : Text} (numeral : IsPlainNumeral text) :
    ∀ c ∈ text, c.isDigit = true ∨ c = '.' := by
  obtain ⟨whole, fraction, rfl, _, wholeDigits, fractionDigits, _⟩ := numeral
  intro c member
  rcases List.mem_append.mp member with inWhole | inFraction
  · exact Or.inl (wholeDigits c inWhole)
  · exact (mem_pointed inFraction).elim Or.inr fun digit => Or.inl (fractionDigits c digit)

/-- No numeral is both plain and scientific: only one of them has an exponent mark. -/
theorem IsPlainNumeral.not_scientific {text : Text} (numeral : IsPlainNumeral text) :
    ¬IsScientificNumeral text := by
  rintro ⟨lead, fraction, exponent, _, rfl, _⟩
  have mark := numeral.characters 'e' (by simp)
  revert mark
  decide

namespace Decimal

theorem le_leading_iff (d : Decimal) (nonzero : d.digits ≠ 0) (n : Int) :
    n ≤ d.leading ↔ (10 : Rat) ^ n ≤ d.magnitude := by
  have bounds := d.magnitude_bounds nonzero
  constructor
  · intro below
    exact (zpow_le_zpow_right₀ (by norm_num) below).trans bounds.1
  · intro reached
    have between := (zpow_lt_zpow_iff_right₀ (by norm_num)).mp (reached.trans_lt bounds.2)
    omega

/-- The notation is chosen by the value that is written. -/
theorem isPlain_iff (d : Decimal) (nonzero : d.digits ≠ 0) :
    d.isPlain = true ↔ IsPlainMagnitude d.magnitude := by
  have low := d.le_leading_iff nonzero (-6)
  have high := d.le_leading_iff nonzero 16
  rw [isPlain, Bool.and_eq_true, decide_eq_true_eq, decide_eq_true_eq, IsPlainMagnitude, ← low,
    ← not_le, ← high]
  omega

def unsignedText (d : Decimal) : Text := if d.isPlain then d.plainText else d.scientificText

section Written

variable (d : Decimal) (nonzero : d.digits ≠ 0)

include nonzero

theorem text_nonzero :
    d.text = if d.negative then '-' :: d.unsignedText else d.unsignedText := by
  rw [text, if_neg nonzero]
  rfl

theorem scientificText_numeral (outside : d.isPlain = false) :
    IsScientificNumeral d.scientificText := by
  obtain ⟨lead, fraction, written, digit, leadNonzero, inside, ends⟩ :=
    d.scientificText_shape nonzero
  have range : d.leading ≤ -7 ∨ 16 ≤ d.leading := by
    simp only [isPlain, Bool.and_eq_false_iff, decide_eq_false_iff_not] at outside
    omega
  exact ⟨lead, fraction, textOfInt d.leading, d.leading, written, digit, leadNonzero, inside,
    ends, textOfInt_numeral d.leading (by omega), range⟩

theorem unsignedText_numeral :
    (IsPlainNumeral d.unsignedText ↔ d.isPlain = true) ∧
      (IsScientificNumeral d.unsignedText ↔ ¬d.isPlain = true) := by
  cases plain : d.isPlain with
  | true =>
      have numeral := d.plainText_numeral nonzero
      simp [unsignedText, plain, numeral, numeral.not_scientific]
  | false =>
      have numeral := d.scientificText_numeral nonzero plain
      have notPlain : ¬IsPlainNumeral d.scientificText :=
        fun other => other.not_scientific numeral
      simp [unsignedText, plain, numeral, notPlain]

theorem unsignedText_shown : ∀ c ∈ d.unsignedText, isResultChar c = true := by
  intro c member
  rw [unsignedText] at member
  split at member
  · rcases (d.plainText_numeral nonzero).characters c member with digit | rfl
    · exact isResultChar_of_isDigit digit
    · rfl
  · obtain ⟨lead, fraction, written, digit, _, inside, _⟩ := d.scientificText_shape nonzero
    rw [written] at member
    simp only [List.cons_append, List.mem_cons, List.mem_append] at member
    rcases member with rfl | behind | rfl | exponent
    · exact isResultChar_of_isDigit digit
    · rcases mem_pointed behind with rfl | inFraction
      · rfl
      · exact isResultChar_of_isDigit (inside c inFraction)
    · rfl
    · exact textOfInt_shown d.leading c exponent

end Written

section Length

variable (d : Decimal)

theorem length_plainText_le (plain : d.isPlain = true) :
    d.plainText.length ≤
      if d.leading < 0 then 7 + d.writtenDigits.length
      else max 16 (d.writtenDigits.length + 1) := by
  simp only [isPlain, Bool.and_eq_true, decide_eq_true_eq] at plain
  rw [plainText]
  split
  · have behind := length_pointed_le (List.replicate (-d.leading - 1).toNat '0' ++ d.writtenDigits)
    simp only [List.length_append, List.length_replicate, List.length_cons] at behind ⊢
    omega
  · simp only [List.length_append, List.length_rightpad, List.length_take]
    -- There is a point only where digits are left for the fraction.
    rcases Nat.lt_or_ge (d.leading.toNat + 1) d.writtenDigits.length with inside | filled
    · have behind := length_pointed_le (d.writtenDigits.drop (d.leading.toNat + 1))
      rw [List.length_drop] at behind
      omega
    · simp only [List.drop_of_length_le filled, pointed, List.isEmpty_nil, ↓reduceIte,
        List.length_nil]
      omega

theorem length_scientificText_le (low : -999 ≤ d.leading) (high : d.leading ≤ 999) :
    d.scientificText.length ≤ d.writtenDigits.length + if d.leading < 0 then 6 else 5 := by
  have exponent := length_textOfInt_le d.leading low high
  have behind := length_pointed_le (d.writtenDigits.drop 1)
  simp only [scientificText, List.length_append, List.length_cons, List.length_take,
    List.length_drop] at behind ⊢
  by_cases fraction : d.leading < 0
  · rw [if_pos fraction] at exponent ⊢
    omega
  · rw [if_neg fraction] at exponent ⊢
    omega

/-- The longest texts are those of the least plain fractions and of the digits that overflow. -/
theorem length_text_le (low : -999 ≤ d.leading) (high : d.leading ≤ 999)
    (few : d.writtenDigits.length ≤ 15 ∨ d.writtenDigits.length ≤ 17 ∧ 0 ≤ d.leading) :
    d.text.length ≤ 23 := by
  have unsigned : d.unsignedText.length ≤ 22 := by
    rw [unsignedText]
    split
    · rename_i plain
      have length := d.length_plainText_le plain
      split at length <;> omega
    · have length := d.length_scientificText_le low high
      split at length <;> omega
  by_cases zero : d.digits = 0
  · simp [text, zero]
  · rw [d.text_nonzero zero]
    split
    · rw [List.length_cons]
      omega
    · omega

end Length

end Decimal

section Comparison

variable (y : FiniteNumber .double)

-- A power of ten is a decimal of one digit, so no other decimal that is as short reads as the
-- same number.
theorem power_le_shortest_iff (nonzero : y.rank ≠ 0) (power : Int) (large : -308 ≤ power) :
    (10 : Rat) ^ power ≤ (Decimal.shortest y).magnitude ↔
      BinaryFormat.double.nearestRank (10 ^ power) ≤ y.rank := by
  have reads := (Decimal.shortest_reads y nonzero).2
  constructor
  · intro below
    exact reads ▸ BinaryFormat.double.nearestRank_mono _ _ (ten_pos power).le below
  · intro reached
    by_contra above
    have ordered := BinaryFormat.double.nearestRank_mono _ _
      (Decimal.magnitude_nonneg (Decimal.shortest y)) (not_le.mp above).le
    have digit : ReadsDigits 1 power y := by
      refine ⟨by decide, ?_, ?_⟩
      · rw [Nat.cast_one, one_mul]
        exact zpow_le_zpow_right₀ (by norm_num) large
      · rw [Nat.cast_one, one_mul]
        exact le_antisymm reached (reads ▸ ordered)
    rw [digit.shortest_magnitude, Nat.cast_one, one_mul] at above
    exact above le_rfl

theorem ofRat_power (power : Int) (small : power ≤ 308) :
    ∃ t : FiniteNumber .double, Number.ofRat false (10 ^ power) = .finite t ∧
      t.toRat = BinaryFormat.double.magnitude (BinaryFormat.double.nearestRank (10 ^ power)) := by
  have bounded : (10 : Rat) ^ power ≤ 179769313486231 * 10 ^ (294 : Int) := by
    calc (10 : Rat) ^ power ≤ 10 ^ (14 + 294 : Int) := zpow_le_zpow_right₀ (by norm_num) small
      _ = 10 ^ (14 : Int) * 10 ^ (294 : Int) := zpow_add₀ (by norm_num) _ _
      _ ≤ 179769313486231 * 10 ^ (294 : Int) :=
        mul_le_mul_of_nonneg_right (by norm_num) (ten_pos 294).le
  have inside := nearestRank_lt_infinityRank _ (ten_pos power).le bounded
  exact ⟨_, (Number.ofRat_of_nonneg _ (ten_pos power).le).trans (ofMagnitude_finite _ _ inside),
    rfl⟩

theorem isPlain_shortest (nonzero : y.rank ≠ 0) :
    (Decimal.shortest y).isPlain = y.comparesPlain := by
  have digits := Decimal.digits_of_readsAs _ y nonzero (Decimal.shortest_readsAs y nonzero)
  obtain ⟨low, lowRead, lowValue⟩ := ofRat_power (-6) (by decide)
  obtain ⟨high, highRead, highValue⟩ := ofRat_power 16 (by decide)
  have value : FiniteNumber.toRat { y with negative := false } =
      BinaryFormat.double.magnitude y.rank := rfl
  have ranks := BinaryFormat.double.magnitude_strictMono
  rw [Bool.eq_iff_iff, Decimal.isPlain_iff _ digits, IsPlainMagnitude, ← not_le,
    power_le_shortest_iff y nonzero (-6) (by decide),
    power_le_shortest_iff y nonzero 16 (by decide)]
  simp only [FiniteNumber.comparesPlain, lowRead, highRead, Number.le, Number.lt, value, lowValue,
    highValue, ranks.le_iff_le, Bool.and_eq_true, Bool.not_eq_true', decide_eq_true_eq,
    decide_eq_false_iff_not]
  omega

end Comparison

theorem shown_zero (x : FiniteNumber .double) (zero : x.rank = 0) :
    IsResult x.toRat x.rounded.toDecimal.text := by
  have value := x.toRat_eq_zero_iff.mpr zero
  rw [shownText_of_zero x zero, value]
  have inside : ∀ c ∈ ['0'], isResultChar c = true := by
    rintro c (_ | ⟨_, ⟨⟩⟩)
    rfl
  exact ⟨by simp, fun nonzero => absurd rfl nonzero, inside, by simp⟩

theorem shown_nonzero (x : FiniteNumber .double) (nonzero : x.rank ≠ 0) :
    IsResult x.toRat x.rounded.toDecimal.text := by
  have kept := x.rounded_nonzero nonzero
  have reads := Decimal.shortest_reads x.rounded kept
  have value : x.toRat ≠ 0 := mt x.toRat_eq_zero_iff.mp nonzero
  obtain ⟨digits, sign⟩ := x.rounded_toDecimal nonzero
  rw [toDecimal_of_nonzero _ kept] at digits sign ⊢
  generalize shown : Decimal.shortest x.rounded = d at reads digits sign
  have written := d.text_denotes
  have nearest := (d.nearest_eq_finite_iff x.rounded).mpr reads
  have bounds := d.leading_bounds_of_reads x.rounded kept nearest
  have few := x.digits_shown nonzero
  rw [shown] at few
  refine ⟨⟨?_, fun zero => absurd zero value⟩, fun _ => ⟨d.unsignedText, d.toRat, ?_, written, ?_⟩,
    ?_, d.length_text_le bounds.1 bounds.2 few⟩
  · -- The text writes a number other than zero, and so is not the zero.
    intro zero
    have zeroText := (⟨false, 0, 0⟩ : Decimal).text_denotes
    have same : d.toRat = 0 := by
      rw [zero] at written
      rw [written.unique zeroText]
      simp [Decimal.toRat, Decimal.magnitude]
    rw [← abs_eq_zero, d.abs_toRat] at same
    exact absurd same (d.magnitude_ne_zero.mpr digits)
  · rw [d.text_nonzero digits, sign]
    simp only [x.negative_iff nonzero]
  · rw [d.abs_toRat, ← d.isPlain_iff digits]
    exact d.unsignedText_numeral digits
  · intro c member
    rw [d.text_nonzero digits] at member
    split at member
    · rcases List.mem_cons.mp member with rfl | inside
      · rfl
      · exact d.unsignedText_shown digits c inside
    · exact d.unsignedText_shown digits c member

theorem plain_iff_comparesPlain (x : FiniteNumber .double) (nonzero : x.rank ≠ 0) (w : Rat)
    (written : Denotes x.rounded.toDecimal.text w) :
    IsPlainMagnitude |w| ↔ x.rounded.comparesPlain = true := by
  have kept := x.rounded_nonzero nonzero
  obtain ⟨digits, _⟩ := x.rounded_toDecimal nonzero
  rw [written.unique (Decimal.text_denotes _), Decimal.abs_toRat, ← Decimal.isPlain_iff _ digits,
    toDecimal_of_nonzero _ kept, isPlain_shortest _ kept]

/-- Every finite number is shown, in the notation that its text is due and that the rounded number
is due by its own value; no other number is shown. -/
theorem display_shape (v : Double) :
    match v with
    | .finite x => ∃ shown, display v = .ok shown ∧ IsResult x.toRat shown ∧
        (x.toRat ≠ 0 → ∀ w, Denotes shown w →
          (IsPlainMagnitude |w| ↔ x.rounded.comparesPlain = true))
    | .infinity _ => display v = .error .notFinite
    | .nan => display v = .error .notFinite := by
  cases v with
  | finite x =>
      refine ⟨x.rounded.toDecimal.text, display_finite x, ?_, fun value w =>
        plain_iff_comparesPlain x (mt x.toRat_eq_zero_iff.mpr value) w⟩
      by_cases zero : x.rank = 0
      · exact shown_zero x zero
      · exact shown_nonzero x zero
  | infinity negative => rfl
  | nan => rfl

-- Rounding reaches the end of the plain range before the notation is chosen.
example : display (.ofRat false 9999999999999998 : Double) = .ok "1e16".toList := by
  decide +kernel

end DeskCalculator
