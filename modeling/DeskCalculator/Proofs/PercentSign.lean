import DeskCalculator.Proofs.ExactRemainder
import DeskCalculator.Proofs.Lexemes
import DeskCalculator.Proofs.ResultShape
import DeskCalculator.Proofs.RoundedOperation

/-!
What a percent sign means. Between two numbers it asks for what is left of the first one after
the second, exactly; behind a number that ends the text it asks for a hundredth; behind any other
text it is as if it were not there. A text with more than one has no result.
-/

namespace DeskCalculator

/-- The text is a number with or without blanks around it, and `x` is the value nearest to it. -/
def Writes (text : Text) (x : FiniteNumber .double) : Prop :=
  Padded (IsNearest (.finite x)) text

theorem simpleNumber?_iff_writes (text : Text) (x : FiniteNumber .double) :
    simpleNumber? text = some x ↔ Writes text x :=
  simpleNumber?_iff_padded text x

theorem Writes.no_percent {text : Text} {x : FiniteNumber .double} (writes : Writes text x) :
    '%' ∉ text :=
  Padded.no_percent writes fun _ nearest => nearest.isLiteral

theorem arithmeticSymbol_blank (c : Char) (blank : isBlank c = true) : arithmeticSymbol c = c := by
  have others : ∀ x : Char, isBlank x = false → c ≠ x := by
    rintro x solid rfl
    rw [blank] at solid
    cases solid
  simp [arithmeticSymbol, others 'x' (by decide), others 'X' (by decide),
    others '×' (by decide), others '÷' (by decide)]

theorem Writes.normalize {text : Text} {x : FiniteNumber .double} (writes : Writes text x) :
    normalize text = text := by
  obtain ⟨before, core, after, rfl, blankBefore, nearest, blankAfter⟩ := writes
  have kept : ∀ blanks : Text, (∀ c ∈ blanks, isBlank c = true) →
      DeskCalculator.normalize blanks = blanks := by
    intro blanks blank
    rw [DeskCalculator.normalize,
      List.map_congr_left fun c member => arithmeticSymbol_blank c (blank c member), List.map_id']
  rw [normalize_append, normalize_append, kept before blankBefore, kept after blankAfter,
    normalize_literal core nearest.isLiteral]

theorem solid_of_percent (text : Text) (marked : '%' ∈ text) : ¬ text.all isBlank = true :=
  fun blank => absurd (List.all_eq_true.mp blank '%' marked) (by decide)

/-- Two numbers around a percent sign are a remainder, also when the second one is zero. -/
theorem evaluate_remainder (left right : Text) (a b : FiniteNumber .double)
    (leftWrites : Writes left a) (rightWrites : Writes right b) :
    evaluate (left ++ '%' :: right) = display (a.remainder b) := by
  have kept : normalize (left ++ '%' :: right) = left ++ '%' :: right := by
    rw [normalize_append, leftWrites.normalize]
    exact congrArg (left ++ '%' :: ·) rightWrites.normalize
  have request : Request.ofText (left ++ '%' :: right) = .remainder a b := by
    simp [Request.ofText, Request.remainder?, splitPercent?_append left right leftWrites.no_percent,
      (simpleNumber?_iff_writes left a).mpr leftWrites,
      (simpleNumber?_iff_writes right b).mpr rightWrites]
  rw [evaluate_of_solid _ (solid_of_percent _ (by simp)), kept, request]
  rfl

/-- The remainder of two numbers that are written is exact: the first less the second as many
times as the truncated quotient says, nearer to zero than the second and with the sign of the
first. There is none after a zero. -/
theorem remainder_shown_exact (left right : Text) (a b : FiniteNumber .double)
    (leftWrites : Writes left a) (rightWrites : Writes right b) :
    (b.toRat = 0 → evaluate (left ++ '%' :: right) = .error .notFinite) ∧
    (b.toRat ≠ 0 → ∃ (r : FiniteNumber .double) (shown : Text),
      r.toRat = a.toRat - truncated (a.toRat / b.toRat) * b.toRat ∧ |r.toRat| < |b.toRat| ∧
      r.negative = a.negative ∧ display (.finite r) = .ok shown ∧
      evaluate (left ++ '%' :: right) = .ok shown) := by
  have evaluated := evaluate_remainder left right a b leftWrites rightWrites
  constructor
  · intro zero
    have divides := b.isZero_iff.mpr (b.toRat_eq_zero_iff.mp zero)
    rw [evaluated, FiniteNumber.remainder, if_pos divides]
    rfl
  · intro nonzero
    obtain ⟨r, found, sign, value, less⟩ :=
      a.remainder_toRat b (mt b.toRat_eq_zero_iff.mpr nonzero)
    exact ⟨r, _, value, less, sign, display_finite r, by rw [evaluated, found, display_finite]⟩

theorem isNearest_integer (literal : Text) (n : Int) (writes : Denotes literal n)
    (small : |n| ≤ 2 ^ 53) :
    ∃ x : FiniteNumber .double, IsNearest (.finite x) literal ∧ x.toRat = n := by
  obtain ⟨d, read, value⟩ := (denotes_iff literal n).mp writes
  obtain ⟨x, nearest, _, same⟩ := nearest_integer d n value small
  exact ⟨x, (isNearest_iff_read _ literal).mpr ⟨d, read, nearest⟩, same⟩

-- Seven below zero between blanks, by three and by a zero with a sign.
theorem remainder_shown_exact_negative :
    evaluate [' ', '-', '7', '\t', '%', '3'] = .ok ['-', '1'] ∧
      evaluate [' ', '-', '7', '\t', '%', '-', '0'] = .error .notFinite := by
  have seven : Denotes ['-', '7'] (-7 : Int) := (denotes_iff _ _).mpr
    ⟨⟨true, 7, 0⟩, rfl, by norm_num [Decimal.toRat, Decimal.magnitude]⟩
  have three : Denotes ['3'] (3 : Int) := (denotes_iff _ _).mpr
    ⟨⟨false, 3, 0⟩, rfl, by norm_num [Decimal.toRat, Decimal.magnitude]⟩
  have zero : Denotes ['-', '0'] (0 : Int) := (denotes_iff _ _).mpr
    ⟨⟨true, 0, 0⟩, rfl, by norm_num [Decimal.toRat, Decimal.magnitude]⟩
  obtain ⟨a, aNearest, aValue⟩ := isNearest_integer _ _ seven (by norm_num)
  obtain ⟨b, bNearest, bValue⟩ := isNearest_integer _ _ three (by norm_num)
  obtain ⟨c, cNearest, cValue⟩ := isNearest_integer _ _ zero (by norm_num)
  have left : Writes [' ', '-', '7', '\t'] a :=
    ⟨[' '], _, ['\t'], rfl, List.forall_mem_singleton.mpr rfl, aNearest,
      List.forall_mem_singleton.mpr rfl⟩
  have bare {literal : Text} {x : FiniteNumber .double} (nearest : IsNearest (.finite x) literal) :
      Writes literal x :=
    ⟨[], literal, [], (List.append_nil _).symm, List.forall_mem_nil _, nearest,
      List.forall_mem_nil _⟩
  constructor
  · obtain ⟨r, shown, value, _, _, displayed, evaluated⟩ :=
      (remainder_shown_exact _ _ a b left (bare bNearest)).2 (by norm_num [bValue])
    have quotient : truncated (((-7 : Int) : Rat) / (3 : Int)) = -2 := by
      have whole : (7 / 3 : Rat).floor = 2 := by
        change ⌊(7 / 3 : Rat)⌋ = 2
        rw [Int.floor_eq_iff]
        norm_num
      rw [show ((-7 : Int) : Rat) / (3 : Int) = -(7 / 3) by norm_num, truncated_neg,
        truncated_of_nonneg _ (by norm_num), whole]
    rw [aValue, bValue, quotient] at value
    have one : r.toRat = (-1 : Int) := by
      rw [value]
      norm_num
    rw [display_integer r (-1) one (by norm_num)] at displayed
    exact evaluated.trans displayed.symm
  · exact (remainder_shown_exact _ _ a c left (bare cNearest)).1 (by simp [cValue])

/-- Behind the last percent sign stands nothing, which is no number, so no remainder is asked
for. -/
theorem ofText_closed (text : Text) (plain : '%' ∉ text) :
    Request.ofText (text ++ ['%']) =
      match simpleNumber? text with
      | some x => .hundredth x
      | none => .expression text := by
  have nothing : simpleNumber? [] = none := rfl
  have noRemainder : Request.remainder? (text ++ ['%']) = none := by
    simp [Request.remainder?, splitPercent?_append text [] plain, nothing]
  cases read : simpleNumber? text <;>
    simp [Request.ofText, noRemainder, Request.hundredth?, read]

theorem evaluate_closed (text : Text) (plain : '%' ∉ text) :
    evaluate (text ++ ['%']) =
      match simpleNumber? (normalize text) with
      | some x => display (.finite x / .ofRat false 100)
      | none => (expressionValue (normalize text)).bind display := by
  have normalPlain : '%' ∉ normalize text := mt (percent_mem_normalize text).mp plain
  have mark : normalize ['%'] = ['%'] := rfl
  rw [evaluate_of_solid _ (solid_of_percent _ (by simp)), normalize_append, mark,
    ofText_closed _ normalPlain]
  cases simpleNumber? (normalize text) <;> simp only [Request.value, Except.bind]

theorem Accepted.count_percent {text : Text} (accepted : Accepted text) : text.count '%' ≤ 1 := by
  have uncounted {part : Text} (absent : '%' ∉ part) : part.count '%' = 0 :=
    List.count_eq_zero.mpr absent
  rcases accepted with ⟨left, right, rfl, leftNumber, rightNumber⟩ | isInfix |
    ⟨expression, rfl, isInfix⟩
  · have before := uncounted (leftNumber.no_percent fun _ finite => finite.isLiteral)
    have after := uncounted (rightNumber.no_percent fun _ finite => finite.isLiteral)
    simp [before, after]
  · rw [uncounted isInfix.no_percent]
    exact Nat.zero_le 1
  · simp [uncounted isInfix.no_percent]

theorem count_percent_normalize (text : Text) : (normalize text).count '%' = text.count '%' := by
  simp [normalize, List.count, List.countP_map, Function.comp_def, arithmeticSymbol_percent,
    beq_eq_decide]

theorem hundred_eq : ∃ h : FiniteNumber .double,
    Number.ofRat false 100 = .finite h ∧ h.negative = false ∧ h.toRat = 100 := by
  let hundred : Decimal := ⟨false, 100, 0⟩
  have value : hundred.toRat = (100 : Int) := by
    norm_num [hundred, Decimal.toRat, Decimal.magnitude]
  obtain ⟨h, nearest, sign, same⟩ := nearest_integer hundred 100 value (by norm_num)
  rw [hundred.nearest_eq_ofRat (by decide) false, value] at nearest
  exact ⟨h, nearest, sign, same⟩

theorem hundredth_isNearest (n : FiniteNumber .double) :
    (.finite n / .ofRat false 100 : Double).IsNearest n.negative (n.toRat / 100) := by
  obtain ⟨h, hundred, sign, value⟩ := hundred_eq
  have nonzero : h.toRat ≠ 0 := by norm_num [value]
  have nearest := Operation.divide.apply_isNearest n h (by decide) fun _ => nonzero
  rw [Operation.negativeZero, sign, Bool.bne_false, Operation.exact, value] at nearest
  rw [hundred]
  exact nearest

/-- A percent sign at the end of a text without others: behind a number it makes a hundredth, which
is the number nearest to the exact one, and behind anything else it changes neither the result nor
the error. Two percent signs are never accepted. -/
theorem closing_percent_exact :
    (∀ text, '%' ∉ text → (¬∀ c ∈ text, isBlank c = true) → ∃ replaced, Replaced text replaced ∧
      (∀ n, Writes replaced n →
        evaluate (text ++ ['%']) = display (.finite n / .ofRat false 100) ∧
          (.finite n / .ofRat false 100 : Double).IsNearest n.negative (n.toRat / 100)) ∧
      ((¬∃ n, Writes replaced n) → evaluate (text ++ ['%']) = evaluate text)) ∧
    ∀ text, 2 ≤ text.count '%' → ∃ cause, evaluate text = .error cause ∧ cause ≠ .notFinite := by
  constructor
  · intro text plain solid
    rw [evaluate_closed text plain]
    refine ⟨normalize text, (replaced_iff text _).mpr rfl, ?_, ?_⟩
    · intro n writes
      rw [(simpleNumber?_iff_writes _ n).mpr writes]
      exact ⟨rfl, hundredth_isNearest n⟩
    · intro unwritten
      cases read : simpleNumber? (normalize text) with
      | none => exact (evaluate_of_plain text plain (by simpa using solid)).symm
      | some n => exact absurd ⟨n, (simpleNumber?_iff_writes _ n).mp read⟩ unwritten
  · intro text several
    have refused : ¬ Accepted (normalize text) := by
      intro accepted
      have few := accepted.count_percent
      rw [count_percent_normalize] at few
      omega
    have solid := solid_of_percent text (List.count_pos_iff.mp (by omega))
    obtain ⟨cause, failed, ofShape⟩ := evaluate_refused text refused (by simpa using solid)
    refine ⟨cause, failed, ?_⟩
    rintro rfl
    cases ofShape

-- Twenty-five alone before the sign and behind a plus, and a text with two signs.
theorem closing_percent_exact_sum :
    evaluate ['2', '5', '%'] = .ok ['0', '.', '2', '5'] ∧
      evaluate ['5', '+', '2', '5', '%'] = evaluate ['5', '+', '2', '5'] ∧
      ∃ cause, evaluate ['5', '%', '2', '%'] = .error cause ∧ cause ≠ .notFinite := by
  have number : Denotes ['2', '5'] (25 : Int) := (denotes_iff _ _).mpr
    ⟨⟨false, 25, 0⟩, rfl, by norm_num [Decimal.toRat, Decimal.magnitude]⟩
  obtain ⟨n, nearest, value⟩ := isNearest_integer _ _ number (by norm_num)
  have writes : Writes ['2', '5'] n :=
    ⟨[], ['2', '5'], [], rfl, List.forall_mem_nil _, nearest, List.forall_mem_nil _⟩
  have unwritten : ¬∃ n, Writes ['5', '+', '2', '5'] n := by
    rintro ⟨n, writes⟩
    have read : simpleNumber? ['5', '+', '2', '5'] = none := rfl
    rw [(simpleNumber?_iff_writes _ n).mpr writes] at read
    cases read
  have solid {c : Char} {rest : Text} (digit : isBlank c = false) :
      ¬∀ x ∈ c :: rest, isBlank x = true := by
    intro blank
    rw [blank c List.mem_cons_self] at digit
    cases digit
  obtain ⟨closing, several⟩ := closing_percent_exact
  refine ⟨?_, ?_, several ['5', '%', '2', '%'] (by decide)⟩
  · obtain ⟨replaced, stands, number, _⟩ := closing ['2', '5'] (by decide) (solid rfl)
    obtain rfl := (replaced_iff _ replaced).mp stands
    obtain ⟨evaluated, quotient⟩ := number n writes
    have rounded : (Number.ofRat n.negative (25 / 100) : Double) =
        .ofMagnitude false (25 / 100) := by
      rw [Number.ofRat, if_neg (by norm_num), decide_eq_false (by norm_num), Rat.abs_of_nonneg]
      norm_num
    rw [Number.isNearest_iff _ _ _ (by decide), value, Int.cast_ofNat, rounded] at quotient
    refine evaluated.trans ?_
    rw [quotient]
    decide +kernel
  · obtain ⟨replaced, stands, _, other⟩ := closing ['5', '+', '2', '5'] (by decide) (solid rfl)
    obtain rfl := (replaced_iff _ replaced).mp stands
    exact other unwritten

end DeskCalculator
