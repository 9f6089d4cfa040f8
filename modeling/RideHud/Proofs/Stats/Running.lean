import Mathlib.Order.Bounds.Basic
import RideHud.Proofs.Exact
import RideHud.Proofs.Stats.Squares
import RideHud.Stats.Running

/-!
# What running statistics tell

Running statistics keep none of the values, but with exact arithmetic they tell what the list of all
values tells: the sum of squares is that of the squared distances from the mean so far, as a value
more adds the product of its distances from the old and the new mean (`Describes.push`). So their
order does not matter (`ofList_twoPass`).
-/

namespace RideHud.Running

section

open scoped Scalar

variable {α : Type} [Scalar α]

/-- A value more is counted. -/
theorem count_push (r : Running α) (x : α) : (r.push x).count = r.count + 1 := by
  unfold push
  split
  · next h => rw [h]
  · rfl

/-- All values are counted. -/
theorem count_ofList (xs : List α) : (ofList xs).count = xs.length := by
  induction xs using List.reverseRecOn with
  | nil => rfl
  | append_singleton xs x ih =>
      rw [ofList_concat, count_push, ih, List.length_append, List.length_singleton]

end

open scoped RideHud.Exact
open Stats

variable {r : Running ℝ} {xs : List ℝ}

/-- The first value is the mean, the least and the greatest one. -/
theorem push_of_count_eq_zero (h : r.count = 0) (x : ℝ) : r.push x = ⟨1, x, 0, x, x⟩ := by
  rw [push, if_pos h, Exact.zero_eq]

/-- What becomes of the statistics with another value. -/
theorem push_of_count_ne_zero (h : r.count ≠ 0) (x : ℝ) :
    r.push x =
      { count := r.count + 1
        mean := r.mean + (x - r.mean) / (r.count + 1)
        squares := r.squares + (x - r.mean) * (x - (r.mean + (x - r.mean) / (r.count + 1)))
        least := min r.least x
        greatest := max r.greatest x } := by
  rw [push, if_neg h, Exact.least_eq_min, Exact.greatest_eq_max, ← Nat.cast_succ]

/-- The statistics are those of some values. -/
structure Describes (r : Running ℝ) (xs : List ℝ) : Prop where
  count : r.count = xs.length
  mean : r.mean = average xs
  squares : r.squares = Stats.squares xs (average xs)
  range_nil : xs = [] → r.least = 0 ∧ r.greatest = 0
  least : xs ≠ [] → IsLeast {x | x ∈ xs} r.least
  greatest : xs ≠ [] → IsGreatest {x | x ∈ xs} r.greatest

/-- There are no values at first. -/
theorem describes_empty : Describes (empty : Running ℝ) [] where
  count := rfl
  mean := by simp [empty, average, Exact.zero_eq]
  squares := by simp [empty, Stats.squares, Exact.zero_eq]
  range_nil _ := ⟨Exact.zero_eq, Exact.zero_eq⟩
  least := absurd rfl
  greatest := absurd rfl

/-- The variance is the sum of squares over the number of values less one. -/
theorem Describes.variance_eq (h : Describes r xs) :
    r.variance = if xs.length < 2 then 0 else Stats.squares xs (average xs) / (xs.length - 1) := by
  rw [variance, h.count, h.squares]
  split
  · exact Exact.zero_eq
  · next hlen => rw [Nat.cast_pred (by omega)]

/-- Statistics of the same values are the same, whatever their order. -/
theorem Describes.eq_of_perm {r' : Running ℝ} {ys : List ℝ} (h : Describes r xs)
    (h' : Describes r' ys) (hperm : ys.Perm xs) : r' = r := by
  have hset : {y | y ∈ ys} = {x | x ∈ xs} := Set.ext fun _ => hperm.mem_iff
  have hmean : average ys = average xs := by rw [average, average, hperm.sum_eq, hperm.length_eq]
  have hsquares : r'.squares = r.squares := by
    rw [h'.squares, h.squares, hmean]
    exact (hperm.map _).sum_eq
  have hrange : r'.least = r.least ∧ r'.greatest = r.greatest := by
    by_cases hne : xs = []
    · obtain ⟨hleast, hgreatest⟩ := h.range_nil hne
      subst hne
      obtain ⟨hleast', hgreatest'⟩ := h'.range_nil hperm.eq_nil
      exact ⟨hleast'.trans hleast.symm, hgreatest'.trans hgreatest.symm⟩
    · have hne' : ys ≠ [] := fun hnil => hne (by subst hnil; exact hperm.symm.eq_nil)
      exact ⟨(hset ▸ h'.least hne').unique (h.least hne),
        (hset ▸ h'.greatest hne').unique (h.greatest hne)⟩
  rcases r with ⟨count, mean, squares, least, greatest⟩
  rcases r' with ⟨count', mean', squares', least', greatest'⟩
  rw [mk.injEq]
  exact ⟨h'.count.trans (hperm.length_eq.trans h.count.symm),
    h'.mean.trans (hmean.trans h.mean.symm), hsquares, hrange⟩

/-- **A value more is described too.** -/
theorem Describes.push (h : Describes r xs) (x : ℝ) : Describes (r.push x) (xs ++ [x]) := by
  have hset : {y | y ∈ xs ++ [x]} = {y | y ∈ xs} ∪ {x} := by
    ext y
    simp [or_comm]
  by_cases hne : xs = []
  · subst hne
    rw [push_of_count_eq_zero h.count]
    refine ⟨rfl, ?_, ?_, nofun, fun _ => ?_, fun _ => ?_⟩
    · simp [average]
    · simp [average, Stats.squares]
    · simp
    · simp
  · have hcount : r.count ≠ 0 := by rwa [h.count, Ne, List.length_eq_zero_iff]
    have hmean : r.mean + (x - r.mean) / (r.count + 1) = average (xs ++ [x]) := by
      rw [average_concat hne, h.mean, h.count]
    rw [push_of_count_ne_zero hcount, hmean]
    refine ⟨by simp [h.count], rfl, ?_, by simp, fun _ => ?_, fun _ => ?_⟩
    · rw [squares_average_concat hne, h.mean, h.squares]
    · rw [hset]
      exact (h.least hne).union isLeast_singleton
    · rw [hset]
      exact (h.greatest hne).union isGreatest_singleton

theorem describes_ofList (xs : List ℝ) : Describes (ofList xs) xs := by
  induction xs using List.reverseRecOn with
  | nil => exact describes_empty
  | append_singleton xs x ih =>
      rw [ofList_concat]
      exact ih.push x

/-- No variance is negative. -/
theorem Describes.variance_nonneg (h : Describes r xs) : 0 ≤ r.variance := by
  rw [h.variance_eq]
  split
  · exact le_refl 0
  · next hlen =>
      have hone : (1 : ℝ) ≤ xs.length := Nat.one_le_cast.mpr (by omega)
      exact div_nonneg (squares_nonneg _ _) (sub_nonneg.mpr hone)

/-- **Running statistics tell what all values tell.** With exact arithmetic, and for any values: the
count is their number; the mean is their sum over their number, and zero without values; the
variance is the sum of the squared distances from that mean over their number less one, zero for
fewer than two values and never negative; the range is from the least to the greatest one, and zero
without values. So the values may come in any order. -/
theorem ofList_twoPass (xs : List ℝ) :
    (ofList xs).count = xs.length ∧
    (ofList xs).mean = (if xs = [] then 0 else xs.sum / xs.length) ∧
    (ofList xs).variance = (if xs.length < 2 then 0
      else Stats.squares xs (xs.sum / xs.length) / (xs.length - 1)) ∧
    0 ≤ (ofList xs).variance ∧
    (xs = [] → (ofList xs).least = 0 ∧ (ofList xs).greatest = 0) ∧
    (xs ≠ [] → IsLeast {x | x ∈ xs} (ofList xs).least ∧
      IsGreatest {x | x ∈ xs} (ofList xs).greatest) ∧
    ∀ ys : List ℝ, ys.Perm xs → ofList ys = ofList xs := by
  have h := describes_ofList xs
  refine ⟨h.count, ?_, h.variance_eq, h.variance_nonneg, h.range_nil,
    fun hne => ⟨h.least hne, h.greatest hne⟩, fun ys => h.eq_of_perm (describes_ofList ys)⟩
  rw [h.mean]
  split
  · next hnil => rw [hnil, average, List.sum_nil, zero_div]
  · rfl

example :
    let r : Running ℚ := ofList [4, 1, 5, 3, 2]
    r.mean = 3 ∧ r.variance = 5 / 2 ∧ r.least = 1 ∧ r.greatest = 5 := by
  decide +kernel

end RideHud.Running
