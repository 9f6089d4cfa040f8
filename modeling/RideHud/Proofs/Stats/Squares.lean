import Mathlib.Algebra.Order.BigOperators.Group.List
import Mathlib.Data.Real.Basic
import Mathlib.Tactic.FieldSimp
import Mathlib.Tactic.Positivity
import Mathlib.Tactic.Ring

/-!
# Squared distances

The squared distances of values from a number add up to what they add up to for the mean, and the
square of its distance from the mean for each value (`squares_eq`). So the mean is the number from
which the values have the least squared distances.
-/

namespace RideHud.Stats

variable {xs : List ℝ}

/-- The arithmetic mean; zero if there are no values. -/
noncomputable def average (xs : List ℝ) : ℝ := xs.sum / xs.length

/-- The squared distances of values from a number, added up. -/
noncomputable def squares (xs : List ℝ) (c : ℝ) : ℝ := (xs.map fun x => (x - c) ^ 2).sum

theorem squares_concat (xs : List ℝ) (x c : ℝ) :
    squares (xs ++ [x]) c = squares xs c + (x - c) ^ 2 := by
  simp [squares]

/-- The squared distances from two numbers differ by what the values lie off one of them. -/
theorem squares_shift (xs : List ℝ) (m c : ℝ) :
    squares xs c
      = squares xs m + 2 * (m - c) * (xs.sum - xs.length * m) + xs.length * (m - c) ^ 2 := by
  induction xs with
  | nil => simp [squares]
  | cons x xs ih =>
      have hcons (c : ℝ) : squares (x :: xs) c = (x - c) ^ 2 + squares xs c := List.sum_cons
      rw [hcons, hcons, ih, List.sum_cons, List.length_cons, Nat.cast_succ]
      ring

theorem squares_nonneg (xs : List ℝ) (c : ℝ) : 0 ≤ squares xs c :=
  List.sum_nonneg fun y hy => by
    obtain ⟨x, -, rfl⟩ := List.mem_map.mp hy
    exact sq_nonneg _

/-- The mean times the number of values is their sum. -/
theorem length_mul_average (hne : xs ≠ []) : xs.length * average xs = xs.sum := by
  have hlen : (xs.length : ℝ) ≠ 0 := Nat.cast_ne_zero.mpr (mt List.length_eq_zero_iff.mp hne)
  rw [average, mul_div_cancel₀ _ hlen]

/-- **Squared distances are least from the mean**, and grow with the square of the distance from
it. -/
theorem squares_eq (hne : xs ≠ []) (c : ℝ) :
    squares xs c = squares xs (average xs) + xs.length * (average xs - c) ^ 2 := by
  rw [squares_shift xs (average xs) c, length_mul_average hne, sub_self, mul_zero, add_zero]

/-- A value more moves the mean by a share of its distance from it. -/
theorem average_concat (hne : xs ≠ []) (x : ℝ) :
    average (xs ++ [x]) = average xs + (x - average xs) / (xs.length + 1) := by
  have hlen : (xs.length : ℝ) + 1 ≠ 0 := by positivity
  have hsum := length_mul_average hne
  rw [average, List.sum_append, List.sum_singleton, List.length_append, List.length_singleton,
    Nat.cast_add, Nat.cast_one, ← hsum]
  field_simp
  ring

/-- **A value more adds the product of its distances from the old and the new mean.** -/
theorem squares_average_concat (hne : xs ≠ []) (x : ℝ) :
    squares (xs ++ [x]) (average (xs ++ [x]))
      = squares xs (average xs) + (x - average xs) * (x - average (xs ++ [x])) := by
  have hlen : (xs.length : ℝ) + 1 ≠ 0 := by positivity
  rw [squares_concat, squares_eq hne, average_concat hne]
  field_simp
  ring

end RideHud.Stats
