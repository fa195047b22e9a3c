import DeskCalculator.Proofs.WrittenNumber

/-!
The text of a decimal depends only on its sign and its magnitude: zeros at the end of the
digits can be moved into the exponent and back. So a decimal of an integer, however it was
found, is written like the integer.
-/

namespace DeskCalculator

theorem digitsOf_append_zeros (n zeros : Nat) (nonzero : n ≠ 0) :
    digitsOf (n * 10 ^ zeros) = digitsOf n ++ List.replicate zeros '0' := by
  induction zeros with
  | zero => rw [Nat.pow_zero, Nat.mul_one, List.replicate_zero, List.append_nil]
  | succ zeros ih =>
      have positive : 0 < n * 10 ^ zeros := Nat.mul_pos (by omega) (Nat.pow_pos (by decide))
      have joined := Nat.toDigits_append_toDigits (b := 10) (d := 0) (by decide) positive
        (by decide)
      have next : n * 10 ^ (zeros + 1) = 10 * (n * 10 ^ zeros) + 0 := by ring
      rw [next, digitsOf, ← joined, ← digitsOf, ih, List.replicate_succ', List.append_assoc]
      rfl

namespace Decimal

theorem magnitude_ne_zero (d : Decimal) : d.magnitude ≠ 0 ↔ d.digits ≠ 0 := by
  simp [magnitude, zpow_ne_zero]

/-- Zeros written out that were in the exponent. -/
def withZeros (d : Decimal) (zeros : Nat) : Decimal :=
  { d with digits := d.digits * 10 ^ zeros, exponent := d.exponent - zeros }

section WithZeros

variable (d : Decimal) (zeros : Nat)

theorem withZeros_digits (nonzero : d.digits ≠ 0) : (d.withZeros zeros).digits ≠ 0 :=
  Nat.mul_ne_zero nonzero (Nat.pow_pos (by decide)).ne'

theorem writtenDigits_withZeros (nonzero : d.digits ≠ 0) :
    (d.withZeros zeros).writtenDigits = d.writtenDigits := by
  have dropped : (List.replicate zeros '0').dropWhile (· == '0') = [] := by simp
  rw [writtenDigits, withZeros, digitsOf_append_zeros _ _ nonzero, List.reverse_append,
    List.reverse_replicate, List.dropWhile_append, dropped]
  rfl

theorem leading_withZeros (nonzero : d.digits ≠ 0) : (d.withZeros zeros).leading = d.leading := by
  have length := length_digitsOf _ (d.withZeros_digits zeros nonzero)
  change (digitsOf (d.digits * 10 ^ zeros)).length = natExponent 10 (d.digits * 10 ^ zeros) + 1
    at length
  rw [digitsOf_append_zeros _ _ nonzero, List.length_append, List.length_replicate,
    length_digitsOf _ nonzero] at length
  change (natExponent 10 (d.digits * 10 ^ zeros) : Int) + (d.exponent - zeros) =
    natExponent 10 d.digits + d.exponent
  omega

theorem text_withZeros (nonzero : d.digits ≠ 0) : (d.withZeros zeros).text = d.text := by
  have written := d.writtenDigits_withZeros zeros nonzero
  have leading := d.leading_withZeros zeros nonzero
  rw [text, text, if_neg (d.withZeros_digits zeros nonzero), if_neg nonzero, isPlain, isPlain,
    plainText, plainText, scientificText, scientificText, written, leading]
  rfl

end WithZeros

/-- Of two decimals of one magnitude, the finer one has the zeros of the coarser written out. -/
theorem eq_withZeros (d e : Decimal) (negative : e.negative = d.negative)
    (magnitude : e.magnitude = d.magnitude) (finer : e.exponent ≤ d.exponent) :
    e = d.withZeros (d.exponent - e.exponent).toNat := by
  have shift : d.exponent = (d.exponent - e.exponent).toNat + e.exponent := by omega
  have digits : e.digits = d.digits * 10 ^ (d.exponent - e.exponent).toNat := by
    have power : (10 : Rat) ^ d.exponent =
        (10 : Rat) ^ (d.exponent - e.exponent).toNat * (10 : Rat) ^ e.exponent := by
      rw [← zpow_natCast, ← zpow_add₀ (by norm_num), ← shift]
    rw [Decimal.magnitude, Decimal.magnitude, power, ← mul_assoc] at magnitude
    exact_mod_cast mul_right_cancel₀ (zpow_ne_zero e.exponent (by norm_num)) magnitude
  cases e
  simp only [withZeros, Decimal.mk.injEq] at *
  exact ⟨negative, digits, by omega⟩

theorem text_congr (d e : Decimal) (nonzero : d.digits ≠ 0) (negative : e.negative = d.negative)
    (magnitude : e.magnitude = d.magnitude) : e.text = d.text := by
  have other : e.digits ≠ 0 := by
    rwa [← d.magnitude_ne_zero, ← magnitude, e.magnitude_ne_zero] at nonzero
  rcases le_total e.exponent d.exponent with finer | coarser
  · rw [eq_withZeros d e negative magnitude finer, d.text_withZeros _ nonzero]
  · rw [eq_withZeros e d negative.symm magnitude.symm coarser, e.text_withZeros _ other]

theorem abs_toRat (d : Decimal) : |d.toRat| = d.magnitude := by
  have nonneg : 0 ≤ d.magnitude :=
    mul_nonneg (Nat.cast_nonneg _) (zpow_nonneg (by norm_num) _)
  rw [toRat]
  split
  · rw [abs_neg, abs_of_nonneg nonneg]
  · rw [abs_of_nonneg nonneg]

theorem negative_iff (d : Decimal) (nonzero : d.digits ≠ 0) :
    d.negative = true ↔ d.toRat < 0 := by
  have positive : 0 < d.magnitude :=
    d.abs_toRat ▸ (abs_nonneg d.toRat).lt_of_ne' (d.abs_toRat ▸ d.magnitude_ne_zero.mpr nonzero)
  rw [toRat]
  cases d.negative with
  | true => simpa using positive
  | false => simpa using positive.le

theorem plainText_integer (negative : Bool) (n : Nat) (nonzero : n ≠ 0) :
    (⟨negative, n, 0⟩ : Decimal).plainText = digitsOf n := by
  obtain ⟨zeros, split⟩ := writtenDigits_split ⟨negative, n, 0⟩
  have length := length_digitsOf n nonzero
  have leading : (⟨negative, n, 0⟩ : Decimal).leading = natExponent 10 n := Int.add_zero _
  rw [plainText, leading, if_neg (by omega), Int.toNat_natCast, ← length]
  dsimp only at split ⊢
  rw [split, List.length_append, List.length_replicate, List.take_of_length_le (by omega),
    List.drop_of_length_le (by omega), List.rightpad, Nat.add_sub_cancel_left]
  exact List.append_nil _

/-- A decimal of an integer of no more than sixteen digits is written like the integer. -/
theorem text_integer (d : Decimal) (n : Int) (value : d.toRat = n) (small : n.natAbs < 10 ^ 16) :
    d.text = textOfInt n := by
  have magnitude : d.magnitude = n.natAbs := by
    rw [← d.abs_toRat, value, Nat.cast_natAbs, Int.cast_abs]
  by_cases zero : d.digits = 0
  · have vanishes : n = 0 := by
      rw [Decimal.magnitude, zero, Nat.cast_zero, zero_mul] at magnitude
      exact Int.natAbs_eq_zero.mp (by exact_mod_cast magnitude.symm)
    rw [text, if_pos zero, vanishes]
    rfl
  · have nonzero : n.natAbs ≠ 0 := by
      have kept := d.magnitude_ne_zero.mpr zero
      rw [magnitude] at kept
      exact_mod_cast kept
    -- The digits of the integer without an exponent have the same text, and that one is plain.
    have same : (⟨d.negative, n.natAbs, 0⟩ : Decimal).magnitude = d.magnitude := by
      rw [magnitude, Decimal.magnitude, zpow_zero, mul_one]
    have exponent : natExponent 10 n.natAbs ≤ 15 := by
      have bounds := natExponent_bounds 10 n.natAbs (by norm_num) (Nat.pos_of_ne_zero nonzero)
      have power := (Nat.pow_lt_pow_iff_right (by norm_num)).mp (bounds.1.trans_lt small)
      omega
    have plain : (⟨d.negative, n.natAbs, 0⟩ : Decimal).isPlain = true := by
      rw [isPlain, Bool.and_eq_true, decide_eq_true_eq, decide_eq_true_eq, leading]
      dsimp only
      omega
    have sign := d.negative_iff zero
    have sameText := text_congr d ⟨d.negative, n.natAbs, 0⟩ zero rfl same
    rw [value, Int.cast_lt_zero] at sign
    rw [← sameText, text, if_neg nonzero, plain, if_pos rfl, plainText_integer _ _ nonzero,
      textOfInt]
    simp only [sign]

end Decimal

theorem textOfInt_denotes (n : Int) : Denotes (textOfInt n) n := by
  have written : DenotesMagnitude (digitsOf n.natAbs) n.natAbs := by
    refine ⟨digitsOf n.natAbs, none, [], 0, by simp [pointPart], digitsOf_isDigit n.natAbs,
      by simp, ?_, Or.inl ⟨rfl, rfl⟩, ?_⟩
    · exact List.append_ne_nil_of_left_ne_nil Nat.toDigits_ne_nil _
    · simp [digitsValue_digitsOf]
  have absolute : ((n.natAbs : Nat) : Rat) = |(n : Rat)| := by rw [Nat.cast_natAbs, Int.cast_abs]
  rw [textOfInt]
  split
  · rename_i negative
    refine ⟨['-'], _, _, rfl, Or.inr (Or.inr rfl), written, ?_⟩
    rw [if_pos rfl, absolute, abs_of_neg (Int.cast_lt_zero.mpr negative), neg_neg]
  · rename_i nonneg
    refine ⟨[], _, _, rfl, Or.inl rfl, written, ?_⟩
    rw [if_neg (by simp), absolute, abs_of_nonneg (Int.cast_nonneg (not_lt.mp nonneg))]

end DeskCalculator
