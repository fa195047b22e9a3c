import DeskCalculator.Proofs.SignificantDigits

/-!
The shortest decimal of a number reads back as the number. The grids are tried from the
coarsest; whenever one has a point that reads back, one of the two neighbours does, so the
search stops there, and on the finest grid it always does. A decimal of few digits that reads
back therefore bounds the digits of the shortest one.
-/

namespace DeskCalculator

variable {f : BinaryFormat}

theorem Number.ofMagnitude_eq_finite_iff (negative : Bool) (q : Rat) (x : FiniteNumber f) :
    Number.ofMagnitude negative q = .finite x ↔
      negative = x.negative ∧ f.nearestRank q = x.rank := by
  rw [Number.ofMagnitude]
  split
  · cases x
    simp
  · rename_i past
    have bounded := x.bounded
    simp only [reduceCtorEq, false_iff, not_and]
    omega

namespace Decimal

theorem nearest_eq_finite_iff (d : Decimal) (x : FiniteNumber f) :
    (d.nearest : Number f) = .finite x ↔
      d.negative = x.negative ∧ f.nearestRank d.magnitude = x.rank := by
  rw [nearest_eq_ofMagnitude, Number.ofMagnitude_eq_finite_iff]

theorem readsAs_iff (d : Decimal) (x : FiniteNumber f) :
    d.readsAs x = true ↔ d.negative = x.negative ∧ f.nearestRank d.magnitude = x.rank := by
  rw [readsAs, decide_eq_true_eq, nearest_eq_finite_iff]

section Neighbours

variable (x : FiniteNumber f) (count : Nat)

/-- The points of the grid next to the number, from below and from above. -/
def lowerNeighbour : Decimal :=
  ⟨x.negative, (x.magnitude / (10 : Rat) ^ digitPlace count x.magnitude).floor.toNat,
    digitPlace count x.magnitude⟩

def upperNeighbour : Decimal :=
  { lowerNeighbour x count with digits := (lowerNeighbour x count).digits + 1 }

theorem neighbour?_eq :
    neighbour? x count =
      match (lowerNeighbour x count).readsAs x, (upperNeighbour x count).readsAs x with
      | true, true =>
        if x.magnitude / (10 : Rat) ^ digitPlace count x.magnitude -
            (x.magnitude / (10 : Rat) ^ digitPlace count x.magnitude).floor < 1 / 2 then
          some (lowerNeighbour x count)
        else some (upperNeighbour x count)
      | true, false => some (lowerNeighbour x count)
      | false, true => some (upperNeighbour x count)
      | false, false => none := rfl

theorem neighbour?_sound (d : Decimal) (found : neighbour? x count = some d) :
    d.readsAs x = true ∧ d.exponent = digitPlace count x.magnitude := by
  rw [neighbour?_eq] at found
  split at found
  · rename_i lowerReads upperReads
    split at found
    · cases found
      exact ⟨lowerReads, rfl⟩
    · cases found
      exact ⟨upperReads, rfl⟩
  · rename_i lowerReads _
    cases found
    exact ⟨lowerReads, rfl⟩
  · rename_i _ upperReads
    cases found
    exact ⟨upperReads, rfl⟩
  · cases found

theorem lowerNeighbour_digits :
    ((lowerNeighbour x count).digits : Int) =
      (x.magnitude / (10 : Rat) ^ digitPlace count x.magnitude).floor := by
  have nonneg : 0 ≤ x.magnitude / (10 : Rat) ^ digitPlace count x.magnitude :=
    div_nonneg x.magnitude_nonneg (ten_pos _).le
  exact Int.toNat_of_nonneg (Rat.le_floor_iff.mpr nonneg)

theorem neighbour_bounds :
    (lowerNeighbour x count).magnitude ≤ x.magnitude ∧
      x.magnitude < (upperNeighbour x count).magnitude := by
  have power := ten_pos (digitPlace count x.magnitude)
  have bounds := floor_bounds (x.magnitude / (10 : Rat) ^ digitPlace count x.magnitude)
  have digits : ((lowerNeighbour x count).digits : Rat) =
      (x.magnitude / (10 : Rat) ^ digitPlace count x.magnitude).floor := by
    exact_mod_cast lowerNeighbour_digits x count
  rw [← digits, le_div_iff₀ power, div_lt_iff₀ power] at bounds
  have upper : (upperNeighbour x count).magnitude =
      ((lowerNeighbour x count).digits + 1) * (10 : Rat) ^ digitPlace count x.magnitude := by
    simp only [magnitude, upperNeighbour, lowerNeighbour]
    push_cast
    rfl
  rw [upper]
  exact bounds

theorem readsAs_of_between (d : Decimal) (v : Rat) (sign : d.negative = x.negative)
    (reads : f.nearestRank v = x.rank) (nonneg : 0 ≤ v)
    (between : (v ≤ d.magnitude ∧ d.magnitude ≤ x.magnitude) ∨
      (x.magnitude ≤ d.magnitude ∧ d.magnitude ≤ v)) : d.readsAs x = true := by
  have own := f.nearestRank_magnitude x.rank
  rw [readsAs_iff]
  refine ⟨sign, ?_⟩
  rcases between with ⟨low, high⟩ | ⟨low, high⟩
  · exact f.nearestRank_convex v _ x.magnitude _ nonneg low high reads own
  · exact f.nearestRank_convex x.magnitude _ v _ x.magnitude_nonneg low high own reads

/-- A grid with a point that reads back has a neighbour that does. -/
theorem neighbour?_isSome (v : Rat) (nonneg : 0 ≤ v)
    (onGrid : IsMultiple (digitPlace count x.magnitude) v) (reads : f.nearestRank v = x.rank) :
    (neighbour? x count).isSome = true := by
  obtain ⟨digits, rfl⟩ := onGrid
  have bounds := neighbour_bounds x count
  have floor := lowerNeighbour_digits x count
  have power := (ten_pos (digitPlace count x.magnitude)).le
  have neighbourReads : (lowerNeighbour x count).readsAs x = true ∨
      (upperNeighbour x count).readsAs x = true := by
    by_cases low : digits ≤ (lowerNeighbour x count).digits
    · left
      refine readsAs_of_between x _ _ rfl reads nonneg (Or.inl ⟨?_, bounds.1⟩)
      exact mul_le_mul_of_nonneg_right (by exact_mod_cast low) power
    · right
      refine readsAs_of_between x _ _ rfl reads nonneg (Or.inr ⟨bounds.2.le, ?_⟩)
      have high : ((upperNeighbour x count).digits : Int) ≤ digits := by
        simp only [upperNeighbour]
        omega
      exact mul_le_mul_of_nonneg_right (by exact_mod_cast high) power
  rw [neighbour?_eq]
  rcases neighbourReads with lowerReads | upperReads
  · rw [lowerReads]
    cases (upperNeighbour x count).readsAs x <;> simp [apply_ite Option.isSome]
  · rw [upperReads]
    cases (lowerNeighbour x count).readsAs x <;> simp [apply_ite Option.isSome]

theorem neighbour?_exact (onGrid : IsMultiple (digitPlace count x.magnitude) x.magnitude) :
    ∃ d, neighbour? x count = some d ∧ d.magnitude = x.magnitude := by
  obtain ⟨digits, split⟩ := onGrid
  have power := ten_pos (digitPlace count x.magnitude)
  have steps : x.magnitude / (10 : Rat) ^ digitPlace count x.magnitude = digits := by
    rw [div_eq_iff power.ne', ← split]
  have floor := lowerNeighbour_digits x count
  rw [steps, Rat.floor_intCast] at floor
  have same : (lowerNeighbour x count).magnitude = x.magnitude := by
    have cast : ((lowerNeighbour x count).digits : Rat) = digits := by exact_mod_cast floor
    rw [magnitude, cast]
    exact split.symm
  have reads : (lowerNeighbour x count).readsAs x = true := by
    rw [readsAs_iff, same]
    exact ⟨rfl, f.nearestRank_magnitude x.rank⟩
  refine ⟨lowerNeighbour x count, ?_, same⟩
  rw [neighbour?_eq, reads, steps, Rat.floor_intCast]
  cases (upperNeighbour x count).readsAs x <;> simp

end Neighbours

theorem findSome?_range_least {α : Type} (g : Nat → Option α) (bound : Nat) (d : α)
    (found : (List.range bound).findSome? g = some d) :
    ∃ first, g first = some d ∧ ∀ before, before < first → g before = none := by
  induction bound with
  | zero => simp at found
  | succ bound ih =>
      rw [List.range_succ, List.findSome?_append] at found
      cases earlier : (List.range bound).findSome? g with
      | some other =>
          rw [earlier, Option.some_or] at found
          exact ih (by rw [earlier, found])
      | none =>
          rw [earlier, Option.none_or] at found
          refine ⟨bound, by simpa using found, ?_⟩
          intro before less
          exact List.findSome?_eq_none_iff.mp earlier before (List.mem_range.mpr less)

section Search

variable (x : FiniteNumber f)

def finestCount (f : BinaryFormat) : Nat := natExponent 10 (f.binade * 2) + 2

/-- The finest grid is closer than the format, so its nearest point reads back. -/
theorem neighbour?_finest (nonzero : x.rank ≠ 0) :
    (neighbour? x (finestCount f)).isSome = true := by
  have positive := x.magnitude_pos_iff.mpr nonzero
  have someDigits : 1 ≤ finestCount f := by
    rw [finestCount]
    omega
  have bounds := digitPlace_bounds (finestCount f) x.magnitude someDigits positive
  have error := significant_error (finestCount f) x.negative x.magnitude someDigits positive
  have fine : (2 * f.binade : Rat) < (10 : Rat) ^ (finestCount f - 1) := by
    have binade := f.binade_pos
    have upper : f.binade * 2 < 10 ^ (finestCount f - 1) :=
      (natExponent_bounds 10 (f.binade * 2) (by norm_num) (by omega)).2
    rw [mul_comm]
    exact_mod_cast upper
  apply neighbour?_isSome x (finestCount f) _ (magnitude_nonneg _)
    (isMultiple_magnitude (significant (finestCount f) x.negative x.magnitude))
  apply f.nearestRank_of_close _ _ (magnitude_nonneg _)
  have binade : (0 : Rat) < f.binade := by exact_mod_cast f.binade_pos
  calc
    |(significant (finestCount f) x.negative x.magnitude).magnitude - x.magnitude| *
        (4 * f.binade) ≤
        (10 : Rat) ^ digitPlace (finestCount f) x.magnitude / 2 * (4 * f.binade) :=
      mul_le_mul_of_nonneg_right error (by linarith)
    _ = 2 * f.binade * (10 : Rat) ^ digitPlace (finestCount f) x.magnitude := by ring
    _ < (10 : Rat) ^ (finestCount f - 1) *
        (10 : Rat) ^ digitPlace (finestCount f) x.magnitude :=
      mul_lt_mul_of_pos_right fine (ten_pos _)
    _ ≤ x.magnitude := bounds.1

/-- The search stops at the first count with a neighbour that reads back. -/
theorem shortest_least (nonzero : x.rank ≠ 0) :
    ∃ count, 1 ≤ count ∧ neighbour? x count = some (shortest x) ∧
      ∀ fewer, 1 ≤ fewer → fewer < count → neighbour? x fewer = none := by
  cases found : ((List.range (finestCount f)).map (· + 1)).findSome? (neighbour? x) with
  | none =>
      -- The last count tried is that of the finest grid.
      have finest := neighbour?_finest x nonzero
      have missing := List.findSome?_eq_none_iff.mp found (finestCount f)
        (List.mem_map.mpr ⟨finestCount f - 1, List.mem_range.mpr (by rw [finestCount]; omega),
          by rw [finestCount]; omega⟩)
      rw [missing] at finest
      cases finest
  | some d =>
      have same : shortest x = d := by
        rw [finestCount] at found
        rw [shortest, found]
      rw [List.findSome?_map] at found
      obtain ⟨first, here, earlier⟩ := findSome?_range_least _ _ d found
      refine ⟨first + 1, by omega, same ▸ here, ?_⟩
      intro fewer positive less
      have index := earlier (fewer - 1) (by omega)
      rwa [Function.comp_apply, Nat.sub_add_cancel positive] at index

theorem shortest_readsAs (nonzero : x.rank ≠ 0) : (shortest x).readsAs x = true := by
  obtain ⟨count, _, found, _⟩ := shortest_least x nonzero
  exact (neighbour?_sound x count _ found).1

theorem shortest_reads (nonzero : x.rank ≠ 0) :
    (shortest x).negative = x.negative ∧ f.nearestRank (shortest x).magnitude = x.rank :=
  (readsAs_iff _ x).mp (shortest_readsAs x nonzero)

/-- A grid with a neighbour that reads back is where the search stops at the latest. -/
theorem shortest_atMost (count : Nat) (atLeastOne : 1 ≤ count) (nonzero : x.rank ≠ 0)
    (found : (neighbour? x count).isSome = true) :
    ∃ least, 1 ≤ least ∧ least ≤ count ∧ neighbour? x least = some (shortest x) := by
  obtain ⟨least, positive, here, fewer⟩ := shortest_least x nonzero
  refine ⟨least, positive, ?_, here⟩
  by_contra more
  rw [fewer count atLeastOne (not_le.mp more)] at found
  cases found

/-- A grid on which the number is found bounds the place of the shortest decimal. -/
theorem digitPlace_le_shortest (count : Nat) (atLeastOne : 1 ≤ count) (nonzero : x.rank ≠ 0)
    (found : (neighbour? x count).isSome = true) :
    digitPlace count x.magnitude ≤ (shortest x).exponent := by
  obtain ⟨least, _, atMost, here⟩ := shortest_atMost x count atLeastOne nonzero found
  rw [(neighbour?_sound x least _ here).2, digitPlace, digitPlace]
  omega

end Search

end Decimal

end DeskCalculator
