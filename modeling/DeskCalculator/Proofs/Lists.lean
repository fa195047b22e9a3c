import Mathlib.Data.List.Forall2

/-!
Lists by their spans and member by member. A span is the longest head of a list whose members
all satisfy a test; where a list is already split at its span, taking and dropping the span give
the two parts back. A relation that holds of one value for each member holds of one list for each
list.
-/

namespace DeskCalculator

variable {α : Type}

/-- The list does not continue a span of `p`. -/
def StopsSpan (p : α → Bool) (rest : List α) : Prop := ∀ x ∈ rest.head?, p x = false

theorem stopsSpan_nil (p : α → Bool) : StopsSpan p [] := by simp [StopsSpan]

theorem stopsSpan_cons (p : α → Bool) (x : α) (rest : List α) :
    StopsSpan p (x :: rest) ↔ p x = false := by simp [StopsSpan]

theorem takeWhile_span (p : α → Bool) (span rest : List α) (inside : ∀ x ∈ span, p x = true)
    (stops : StopsSpan p rest) : (span ++ rest).takeWhile p = span := by
  rw [List.takeWhile_append_of_pos inside]
  cases rest with
  | nil => simp
  | cons x rest => simp [(stopsSpan_cons p x rest).mp stops]

theorem dropWhile_span (p : α → Bool) (span rest : List α) (inside : ∀ x ∈ span, p x = true)
    (stops : StopsSpan p rest) : (span ++ rest).dropWhile p = rest := by
  rw [List.dropWhile_append_of_pos inside]
  cases rest with
  | nil => rfl
  | cons x rest => simp [(stopsSpan_cons p x rest).mp stops]

theorem stopsSpan_dropWhile (p : α → Bool) (text : List α) : StopsSpan p (text.dropWhile p) := by
  intro x found
  have failing := List.head?_dropWhile_not p text
  rw [found] at failing
  simpa using failing

theorem takeWhile_inside (p : α → Bool) (text : List α) : ∀ x ∈ text.takeWhile p, p x = true :=
  fun _ member => List.all_eq_true.mp List.all_takeWhile _ member

theorem forall₂_eq_map {Item Value : Type} (related : Item → Value → Prop) (value : Item → Value)
    (items : List Item) (values : List Value)
    (exact : ∀ item given, related item given ↔ given = value item) :
    List.Forall₂ related items values ↔ values = items.map value := by
  induction items generalizing values with
  | nil => simp
  | cons item rest ih => simp [List.forall₂_cons_left_iff, exact, ih]

end DeskCalculator
