import Mathlib.Algebra.Order.Field.Basic
import Mathlib.Analysis.SpecialFunctions.Complex.Arg
import Mathlib.Data.List.MinMax
import Mathlib.Data.Rat.Cast.OfScientific
import RideHud.Scalar

/-!
# Exact numbers

The elements of an ordered division ring are scalars whose operations do not round. What is said of
an algorithm over all such rings is said of what it computes with exact arithmetic, be it with
rational or with real numbers. That products commute is not needed. Roots, angles and powers are not
computed exactly in every ring; what is said for any `Functions` in their place does not depend on
them.
-/

namespace RideHud.Exact

variable {K : Type} [DivisionRing K] [LinearOrder K]

/-- The elements of an ordered division ring, computed with exactly. -/
scoped instance scalar : Scalar K where
  decLt := inferInstance
  decLe := inferInstance

/-- What stands for the elementary functions. -/
structure Functions (K : Type) where
  pi : K
  sqrt : K → K
  sin : K → K
  cos : K → K
  tan : K → K
  acos : K → K
  atan2 : K → K → K
  ceil : K → ℕ

/-- Exact numbers with some functions in place of the elementary ones. -/
abbrev elementary (f : Functions K) : Elementary K where
  toScalar := scalar
  pi := f.pi
  sqrt := f.sqrt
  sin := f.sin
  cos := f.cos
  tan := f.tan
  acos := f.acos
  atan2 := f.atan2
  ceil := f.ceil

/-- The elementary functions of the real numbers. -/
noncomputable def real : Functions ℝ where
  pi := Real.pi
  sqrt := Real.sqrt
  sin := Real.sin
  cos := Real.cos
  tan := Real.tan
  acos := Real.arccos
  atan2 y x := Complex.arg ⟨x, y⟩
  ceil := Nat.ceil

/-- The real numbers, computed with exactly. -/
noncomputable scoped instance reals : Elementary ℝ := elementary real

/-- Zero is the zero of the ring. -/
theorem zero_eq : (@OfNat.ofNat K 0 (Scalar.instOfNat 0)) = 0 := Nat.cast_zero

/-- One is the one of the ring. -/
theorem one_eq : (@OfNat.ofNat K 1 (Scalar.instOfNat 1)) = 1 := Nat.cast_one

/-- Two is the two of the ring. -/
theorem two_eq : (@OfNat.ofNat K 2 (Scalar.instOfNat 2)) = 2 := Nat.cast_ofNat

/-- The size of a number is its absolute value. -/
theorem magnitude_eq_abs [IsStrictOrderedRing K] (x : K) : Scalar.magnitude x = |x| := by
  unfold Scalar.magnitude
  rw [zero_eq]
  split
  · next h => exact (abs_of_neg h).symm
  · next h => exact (abs_of_nonneg (not_lt.mp h)).symm

/-- A number is negligible if its absolute value is within the tolerance. -/
theorem negligible_iff [IsStrictOrderedRing K] (x : K) :
    Scalar.negligible x = true ↔ |x| ≤ 1e-12 := by
  rw [Scalar.negligible, magnitude_eq_abs, decide_eq_true_iff]

/-- A number that is not negative is negligible if it is within the tolerance itself. -/
theorem negligible_iff_of_nonneg [IsStrictOrderedRing K] {x : K} (h : 0 ≤ x) :
    Scalar.negligible x = true ↔ x ≤ 1e-12 := by
  rw [negligible_iff, abs_of_nonneg h]

/-- Numbers that compare leave the smaller one of two. -/
theorem least_eq_min (x y : K) : Scalar.least x y = min x y := by
  unfold Scalar.least
  rw [if_pos (le_refl x)]
  split
  · next h => exact (min_eq_right h.le).symm
  · next h => exact (min_eq_left (not_lt.mp h)).symm

/-- They leave the larger one of two. -/
theorem greatest_eq_max (x y : K) : Scalar.greatest x y = max x y := by
  unfold Scalar.greatest
  rw [if_pos (le_refl x)]
  split
  · next h => exact (max_eq_right h.le).symm
  · next h => exact (max_eq_left (not_lt.mp h)).symm

/-- A floor leaves the larger one of two. -/
theorem atLeast_eq_max (lo x : K) : Scalar.atLeast lo x = max lo x := by
  unfold Scalar.atLeast
  split
  · next h => exact (max_eq_right h.le).symm
  · next h => exact (max_eq_left (not_lt.mp h)).symm

/-- A number between the limits is kept. -/
theorem clamp_of_mem_Icc {lo hi x : K} (h : x ∈ Set.Icc lo hi) : Scalar.clamp lo hi x = x := by
  rw [Scalar.clamp, if_neg (not_lt.mpr h.1), if_neg (not_lt.mpr h.2)]

omit [DivisionRing K] in
/-- Among some things there are one of the least and one of the greatest measure. -/
theorem exists_extremes {β : Type} {xs : List β} (f : β → K) (hne : xs ≠ []) :
    ∃ low ∈ xs, ∃ high ∈ xs, ∀ x ∈ xs, f x ∈ Set.Icc (f low) (f high) := by
  have hmin : xs.argmin f ≠ none := mt List.argmin_eq_none.mp hne
  have hmax : xs.argmax f ≠ none := mt List.argmax_eq_none.mp hne
  obtain ⟨low, hlow⟩ := Option.ne_none_iff_exists'.mp hmin
  obtain ⟨high, hhigh⟩ := Option.ne_none_iff_exists'.mp hmax
  exact ⟨low, List.argmin_mem hlow, high, List.argmax_mem hhigh, fun x hx =>
    ⟨List.le_of_mem_argmin hx hlow, List.le_of_mem_argmax hx hhigh⟩⟩

/-- Without rounding, it does not matter from which side a list is added up. -/
theorem total_eq_sum (xs : List K) : Scalar.total xs = xs.sum := by
  rw [Scalar.total, zero_eq, List.sum_eq_foldl]

end RideHud.Exact
