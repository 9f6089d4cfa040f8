import Mathlib.Data.Sign.Basic
import RideHud.Proofs.Exact
import RideHud.Series.Outliers

/-!
# Outliers in other units

If all values of a series are multiplied by `a` and `b` is added to them, then the mean of a window
goes along (`mean_map`) and its spread is multiplied by the size of `a` (`spread_map`). So a value
is as many spreads off the mean as it was, on the other side of it if `a` is negative
(`judge_map`), and the window takes what it took, in the new unit (`filtered_map`). The marks stay
as they are, or all of them are turned round (`marks_of_units`).
-/

namespace RideHud

open scoped RideHud.Exact

variable {a : ℝ}

/-! ## Marks -/

namespace Mark

/-- What a mark is when all values are multiplied by `a`: it is turned round if `a` is negative. -/
noncomputable def scaled (a : ℝ) (m : Mark) : Mark := if 0 < a then m else m.flip

theorem toInt_scaled (ha : a ≠ 0) (m : Mark) : (m.scaled a).toInt = SignType.sign a * m.toInt := by
  unfold scaled
  rcases ha.lt_or_gt with hneg | hpos
  · rw [if_neg hneg.not_gt, toInt_flip, sign_neg hneg, SignType.coe_neg_one, neg_one_mul]
  · rw [if_pos hpos, sign_pos hpos, SignType.coe_one, one_mul]

theorem isMarked_scaled (a : ℝ) (m : Mark) : (m.scaled a).isMarked = m.isMarked := by
  unfold scaled
  split
  · rfl
  · cases m <;> rfl

theorem scaled_plain (a : ℝ) : plain.scaled a = plain := ite_self _

end Mark

namespace Series

/-! ## Mean and spread -/

variable {xs : List ℝ}

/-- The mean goes along with the values. -/
theorem mean_map (a b : ℝ) (hxs : xs ≠ []) :
    mean (xs.map fun x => a * x + b) = a * mean xs + b := by
  have hlen : (xs.length : ℝ) ≠ 0 := Nat.cast_ne_zero.mpr (mt List.length_eq_zero_iff.mp hxs)
  rw [mean, mean, Exact.total_eq_sum, Exact.total_eq_sum, List.length_map, List.sum_map_add,
    List.sum_map_mul_left, List.map_id', List.map_const', List.sum_replicate, nsmul_eq_mul]
  field_simp

theorem variance_map (a b : ℝ) (hxs : xs ≠ []) :
    variance (xs.map fun x => a * x + b) = a * a * variance xs := by
  rw [variance, variance, mean_map a b hxs, Exact.total_eq_sum, Exact.total_eq_sum, List.map_map,
    List.length_map, mul_div_assoc', ← List.sum_map_mul_left]
  congr 3
  funext x
  rw [Function.comp_apply]
  ring

/-- The spread is multiplied by the size of the factor. -/
theorem spread_map (a b : ℝ) (hxs : xs ≠ []) :
    spread (xs.map fun x => a * x + b) = |a| * spread xs := by
  show √(variance _) = |a| * √(variance xs)
  rw [variance_map a b hxs, Real.sqrt_mul (mul_self_nonneg a), Real.sqrt_mul_self_eq_abs]

theorem spread_nonneg (xs : List ℝ) : 0 ≤ spread xs := Real.sqrt_nonneg _

namespace OutlierRule

/-! ## Outliers -/

variable {rule : OutlierRule ℝ} {window : List ℝ}

/-- The distance of two values is multiplied by the size of the factor. -/
theorem distance_map (a b x y : ℝ) : |a * y + b - (a * x + b)| = |a| * |y - x| := by
  rw [← abs_mul]
  congr 1
  ring

/-- A value other than the mean is on the side where it was, or on the other one. -/
theorem side_map (ha : a ≠ 0) (b : ℝ) {x y : ℝ} (hne : x ≠ y) :
    (if a * x + b < a * y + b then Mark.high else .low)
      = (if x < y then Mark.high else .low).scaled a := by
  unfold Mark.scaled
  rcases ha.lt_or_gt with hneg | hpos
  · have hside : a * x + b < a * y + b ↔ ¬x < y := by
      rw [add_lt_add_iff_right, mul_lt_mul_left_of_neg hneg, not_lt, le_iff_lt_or_eq,
        or_iff_left hne.symm]
    rw [if_neg hneg.not_gt]
    by_cases hy : x < y
    · rw [if_neg fun h => hside.mp h hy, if_pos hy]
      rfl
    · rw [if_pos (hside.mpr hy), if_neg hy]
      rfl
  · have hside : a * x + b < a * y + b ↔ x < y := by
      rw [add_lt_add_iff_right, mul_lt_mul_iff_right₀ hpos]
    simp only [if_pos hpos, hside]

/-- A value is as far off as it was, on the other side if the factor is negative. -/
theorem judge_map (hthreshold : 0 ≤ rule.threshold) (ha : a ≠ 0) (b : ℝ) (hwindow : window ≠ [])
    (y : ℝ) :
    rule.judge (window.map fun x => a * x + b) (a * y + b) = (rule.judge window y).scaled a := by
  have hspread := spread_nonneg window
  unfold judge
  dsimp only
  rw [mean_map a b hwindow, spread_map a b hwindow, Exact.magnitude_eq_abs, Exact.magnitude_eq_abs,
    distance_map]
  generalize mean window = m
  generalize spread window = d at *
  have hfar : rule.threshold * (|a| * d) < |a| * |y - m| ↔ rule.threshold * d < |y - m| := by
    rw [mul_left_comm]
    exact mul_lt_mul_iff_right₀ (abs_pos.mpr ha)
  by_cases h : rule.threshold * d < |y - m|
  · -- A value that is marked is not the mean.
    have hne : m ≠ y := fun heq => by
      rw [heq, sub_self, abs_zero] at h
      exact h.not_ge (mul_nonneg hthreshold hspread)
    rw [if_pos (hfar.mpr h), if_pos h, side_map ha b hne]
  · rw [if_neg (mt hfar.mp h), if_neg h, Mark.scaled_plain]

/-- The window takes what it took. -/
theorem filtered_map (a b previous y : ℝ) (m : Mark) :
    rule.filtered (a * previous + b) (a * y + b) (m.scaled a)
      = a * rule.filtered previous y m + b := by
  unfold filtered
  rw [Mark.isMarked_scaled, Exact.one_eq]
  split
  · ring
  · rfl

/-- What follows a window is marked as it was, or the other way round. -/
theorem marksAfter_map (hthreshold : 0 ≤ rule.threshold) (ha : a ≠ 0) (b : ℝ) (ys : List ℝ)
    (hwindow : window ≠ []) :
    rule.marksAfter (window.map fun x => a * x + b) (ys.map fun x => a * x + b)
      = (rule.marksAfter window ys).map (Mark.scaled a) := by
  induction ys generalizing window with
  | nil => rfl
  | cons y ys ih =>
      have hlast : (window.map fun x => a * x + b).getLastD (a * y + b)
          = a * window.getLastD y + b := by
        rw [List.getLastD_eq_getLast?, List.getLastD_eq_getLast?, List.getLast?_map,
          Option.getD_map]
      have hnext (taken : ℝ) : (window.map fun x => a * x + b).tail ++ [a * taken + b]
          = (window.tail ++ [taken]).map fun x => a * x + b := by
        rw [List.map_append, List.map_tail, List.map_singleton]
      rw [List.map_cons, marksAfter, marksAfter, List.map_cons,
        judge_map hthreshold ha b hwindow, hlast, filtered_map, hnext,
        ih (List.append_ne_nil_of_right_ne_nil _ (List.cons_ne_nil _ _))]

/-- A series is marked as it was, or the other way round. -/
theorem marks?_map (hthreshold : 0 ≤ rule.threshold) (ha : a ≠ 0) (b : ℝ) (values : List ℝ) :
    rule.marks? (values.map fun x => a * x + b)
      = (rule.marks? values).map (List.map (Mark.scaled a)) := by
  unfold marks?
  split
  · rfl
  · next hlag =>
      have hplain (window : List ℝ) :
          (window.map fun x => a * x + b).map (fun _ => Mark.plain)
            = (window.map fun _ => Mark.plain).map (Mark.scaled a) := by
        rw [List.map_map, List.map_map]
        exact List.map_congr_left fun _ _ => (Mark.scaled_plain a).symm
      rcases eq_or_ne values [] with rfl | hvalues
      · rw [List.map_nil, List.take_nil, List.drop_nil]
        rfl
      · have hwindow : values.take rule.lag ≠ [] := by
          rw [Ne, List.take_eq_nil_iff, not_or]
          exact ⟨hlag, hvalues⟩
        dsimp only
        rw [← List.map_take, ← List.map_drop, marksAfter_map hthreshold ha b _ hwindow, hplain,
          ← List.map_append]
        rfl

/-- **Marks do not depend on the unit.** For every series of real numbers, every rule whose window
has values and whose threshold is not negative, and every factor other than zero and every offset:
in the new unit the series has the same marks if the factor is positive, and the same marks turned
round if it is negative. -/
theorem marks_of_units (hlag : 1 ≤ rule.lag) (hthreshold : 0 ≤ rule.threshold) (ha : a ≠ 0) (b : ℝ)
    (values : List ℝ) :
    ∃ marks marks' : List Mark, rule.marks? values = .ok marks ∧
      rule.marks? (values.map fun x => a * x + b) = .ok marks' ∧
      marks'.map Mark.toInt = marks.map fun m => (SignType.sign a : ℤ) * m.toInt := by
  obtain ⟨marks, hmarks⟩ : ∃ marks, rule.marks? values = .ok marks :=
    ⟨_, if_neg (Nat.ne_zero_of_lt hlag)⟩
  refine ⟨marks, marks.map (Mark.scaled a), hmarks, ?_, ?_⟩
  · rw [marks?_map hthreshold ha, hmarks]
    rfl
  · rw [List.map_map]
    exact List.map_congr_left fun m _ => Mark.toInt_scaled ha m

/-- Three temperatures, of which the last one is high. -/
def feverish : List ℝ := [36, 38, 44]

/-- A rule for them. -/
noncomputable def lastTwo : OutlierRule ℝ where
  lag := 2
  threshold := 1
  influence := 0

/-- On a scale that falls where the temperature rises, the last one is low. -/
theorem marks_of_feverish :
    1 ≤ lastTwo.lag ∧ 0 ≤ lastTwo.threshold ∧ (-9 / 5 : ℝ) ≠ 0 ∧
      lastTwo.marks? feverish = .ok [.plain, .plain, .high] ∧
      ∃ marks, lastTwo.marks? (feverish.map fun x => -9 / 5 * x + 32) = .ok marks ∧
        marks.map Mark.toInt = [0, 0, -1] := by
  have hmarks : lastTwo.marks? feverish = .ok [.plain, .plain, .high] := by
    show Except.ok [.plain, .plain, lastTwo.judge [36, 38] 44] = _
    have hmean : mean [(36 : ℝ), 38] = 37 := by norm_num [mean, Exact.total_eq_sum]
    have hspread : spread [(36 : ℝ), 38] = 1 := by
      show √(variance [(36 : ℝ), 38]) = 1
      norm_num [variance, hmean, Exact.total_eq_sum]
    have hjudge : lastTwo.judge [36, 38] 44 = .high := by
      norm_num [judge, hmean, hspread, Exact.magnitude_eq_abs, lastTwo]
    rw [hjudge]
  have hlag : 1 ≤ lastTwo.lag := by decide
  have hthreshold : 0 ≤ lastTwo.threshold := by norm_num [lastTwo]
  have ha : (-9 / 5 : ℝ) ≠ 0 := by norm_num
  obtain ⟨marks, marks', h, h', hsign⟩ :=
    marks_of_units hlag hthreshold ha 32 feverish
  obtain rfl := Except.ok.inj (h.symm.trans hmarks)
  refine ⟨hlag, hthreshold, ha, hmarks, marks', h', hsign.trans ?_⟩
  rw [sign_neg (by norm_num)]
  rfl

end OutlierRule

end Series

end RideHud
