import RideHud.Proofs.Exact
import RideHud.Proofs.Stats.Squares
import RideHud.Series.Line

/-!
# The line of least squares

The squared vertical distances of points from a line depend on its slope and on how far it passes
from their mean: they are a quadratic in the slope, and grow with the square of that distance for
each point (`residual_eq`). With exact arithmetic, the line that is fitted has the best slope,
unless the abscissas hardly differ, and passes through the mean (`fit_leastSquares`).
-/

namespace RideHud.Series.Line

open Stats
open scoped RideHud.Exact

variable {points : List (ℝ × ℝ)} {line : Line ℝ}

/-! ## Distances from a line -/

theorem valueAt_eq (line : Line ℝ) (x : ℝ) :
    line.valueAt x = line.slope * x + line.intercept := rfl

/-- A line is told by its slope and its height over one abscissa. -/
theorem eq_of_valueAt_eq {line line' : Line ℝ} {x : ℝ} (hslope : line.slope = line'.slope)
    (hvalue : line.valueAt x = line'.valueAt x) : line = line' := by
  obtain ⟨slope, intercept⟩ := line
  obtain ⟨slope', intercept'⟩ := line'
  obtain rfl : slope = slope' := hslope
  rw [valueAt_eq, valueAt_eq] at hvalue
  rw [mk.injEq]
  exact ⟨rfl, add_left_cancel hvalue⟩

/-- The abscissas of points. -/
noncomputable def abscissas (points : List (ℝ × ℝ)) : List ℝ := points.map Prod.fst

/-- Their values. -/
noncomputable def ordinates (points : List (ℝ × ℝ)) : List ℝ := points.map Prod.snd

/-- The squared vertical distances of points from a line, added up. -/
noncomputable def residual (line : Line ℝ) (points : List (ℝ × ℝ)) : ℝ :=
  (points.map fun p => (p.2 - line.valueAt p.1) ^ 2).sum

/-- The products of the distances of points from two numbers, added up. -/
noncomputable def products (points : List (ℝ × ℝ)) (c d : ℝ) : ℝ :=
  (points.map fun p => (p.1 - c) * (p.2 - d)).sum

/-- What is left of the values after the share of the abscissas was taken away. -/
noncomputable def leftover (slope : ℝ) (points : List (ℝ × ℝ)) : List ℝ :=
  points.map fun p => p.2 - slope * p.1

/-- The distances from a line are those of the leftover from its intercept. -/
theorem residual_eq_squares (line : Line ℝ) (points : List (ℝ × ℝ)) :
    residual line points = squares (leftover line.slope points) line.intercept := by
  rw [residual, squares, leftover, List.map_map]
  refine congrArg List.sum (List.map_congr_left fun p _ => ?_)
  rw [Function.comp_apply, valueAt_eq]
  ring

theorem average_leftover (slope : ℝ) (points : List (ℝ × ℝ)) :
    average (leftover slope points)
      = average (ordinates points) - slope * average (abscissas points) := by
  have hsum : (leftover slope points).sum
      = (ordinates points).sum - slope * (abscissas points).sum := by
    simp only [leftover, ordinates, abscissas]
    induction points with
    | nil => simp
    | cons p points ih =>
        simp only [List.map_cons, List.sum_cons, ih]
        ring
  rw [average, average, average, hsum, leftover, ordinates, abscissas, List.length_map,
    List.length_map, List.length_map]
  ring

/-- The squared distances of the leftover, multiplied out. -/
theorem squares_leftover (slope c d : ℝ) (points : List (ℝ × ℝ)) :
    squares (leftover slope points) (d - slope * c)
      = squares (ordinates points) d - 2 * slope * products points c d
        + slope ^ 2 * squares (abscissas points) c := by
  simp only [squares, leftover, ordinates, abscissas, products, List.map_map, Function.comp_def]
  induction points with
  | nil => simp
  | cons p points ih =>
      simp only [List.map_cons, List.sum_cons, ih]
      ring

/-! ## The line that is fitted -/

variable (points) in
/-- The squared distances of the abscissas from their mean, added up. -/
noncomputable def scatter : ℝ := squares (abscissas points) (average (abscissas points))

variable (points) in
/-- The products of the distances from both means, added up. -/
noncomputable def covariation : ℝ :=
  products points (average (abscissas points)) (average (ordinates points))

theorem scatter_nonneg (points : List (ℝ × ℝ)) : 0 ≤ scatter points := squares_nonneg _ _

/-- **The squared distances from a line**: what they are for the best line of the same slope, and
the square of the distance at which the line passes the mean for each point. -/
theorem residual_eq (hne : points ≠ []) (line : Line ℝ) :
    residual line points
      = squares (ordinates points) (average (ordinates points))
        - 2 * line.slope * covariation points + line.slope ^ 2 * scatter points
        + points.length
          * (average (ordinates points) - line.valueAt (average (abscissas points))) ^ 2 := by
  have hne' : leftover line.slope points ≠ [] := mt List.map_eq_nil_iff.mp hne
  rw [residual_eq_squares, squares_eq hne', average_leftover, squares_leftover, leftover,
    List.length_map, scatter, covariation, valueAt_eq]
  ring

/-- With exact arithmetic, the line has the slope that the products tell, unless the abscissas
hardly differ, and passes through the mean. -/
theorem fit_eq (points : List (ℝ × ℝ)) :
    fit points =
      if 1e-12 < scatter points then
        ⟨covariation points / scatter points,
          average (ordinates points)
            - covariation points / scatter points * average (abscissas points)⟩
      else ⟨0, average (ordinates points)⟩ := by
  have hx : (points.map fun p => p.1).sum / points.length = average (abscissas points) := by
    rw [average, abscissas, List.length_map]
  have hy : (points.map fun p => p.2).sum / points.length = average (ordinates points) := by
    rw [average, ordinates, List.length_map]
  have hsquares (m : ℝ) : (points.map fun p => (p.1 - m) * (p.1 - m)).sum
      = squares (abscissas points) m := by
    simp only [squares, abscissas, List.map_map, Function.comp_def, sq]
  have hlarge : 1e-12 < scatter points ↔ ¬Scalar.negligible (scatter points) = true := by
    rw [Exact.negligible_iff_of_nonneg (scatter_nonneg _), not_le]
  simp only [fit, Exact.total_eq_sum, Exact.zero_eq, hx, hy, hsquares]
  rw [if_congr hlarge rfl rfl, ite_not]
  rfl

/-- **How much worse another line is**, if the abscissas differ: it depends on how far its slope is
from that of the line that is fitted, and on how far it passes from the mean. -/
theorem residual_eq_residual_fit_add (hne : points ≠ []) (hscatter : 1e-12 < scatter points)
    (line : Line ℝ) :
    residual line points
      = residual (fit points) points
        + (scatter points * (line.slope - (fit points).slope) ^ 2
          + points.length * ((fit points).valueAt (average (abscissas points))
            - line.valueAt (average (abscissas points))) ^ 2) := by
  have hpos : (0 : ℝ) < scatter points := lt_trans (by positivity) hscatter
  have hfit := fit_eq points
  rw [if_pos hscatter] at hfit
  have hcovariation : covariation points = (fit points).slope * scatter points := by
    rw [hfit, div_mul_cancel₀ _ hpos.ne']
  have hmean : (fit points).valueAt (average (abscissas points)) = average (ordinates points) := by
    rw [hfit]
    exact add_sub_cancel _ _
  rw [residual_eq hne line, residual_eq hne (fit points), hmean, hcovariation]
  ring

theorem residual_nonneg (line : Line ℝ) (points : List (ℝ × ℝ)) : 0 ≤ residual line points := by
  rw [residual_eq_squares]
  exact squares_nonneg _ _

/-- Nothing is left of points on the line. -/
theorem residual_eq_zero (h : ∀ p ∈ points, p.2 = line.valueAt p.1) : residual line points = 0 :=
  List.sum_eq_zero fun d hd => by
    obtain ⟨p, hp, rfl⟩ := List.mem_map.mp hd
    rw [h p hp, sub_self, zero_pow two_ne_zero]

/-- The fitted line, if the abscissas differ, is as good as any line. -/
theorem residual_fit_le (hne : points ≠ []) (hscatter : 1e-12 < scatter points) (line : Line ℝ) :
    residual (fit points) points ≤ residual line points := by
  rw [residual_eq_residual_fit_add hne hscatter line]
  exact le_add_of_nonneg_right (add_nonneg (mul_nonneg (scatter_nonneg _) (sq_nonneg _))
    (mul_nonneg (Nat.cast_nonneg _) (sq_nonneg _)))

/-- No other line is as good. -/
theorem eq_fit (hne : points ≠ []) (hscatter : 1e-12 < scatter points)
    (h : residual line points ≤ residual (fit points) points) : line = fit points := by
  have hpos : (0 : ℝ) < scatter points := lt_trans (by positivity) hscatter
  have hlen : (0 : ℝ) < points.length := Nat.cast_pos.mpr (List.length_pos_of_ne_nil hne)
  have hslope : 0 ≤ scatter points * (line.slope - (fit points).slope) ^ 2 :=
    mul_nonneg hpos.le (sq_nonneg _)
  have hheight : 0 ≤ points.length * ((fit points).valueAt (average (abscissas points))
      - line.valueAt (average (abscissas points))) ^ 2 := mul_nonneg hlen.le (sq_nonneg _)
  -- Neither the slope nor the height at the mean makes it worse.
  rw [residual_eq_residual_fit_add hne hscatter, add_le_iff_nonpos_right] at h
  obtain ⟨hslope', hheight'⟩ := (add_eq_zero_iff_of_nonneg hslope hheight).mp
    (le_antisymm h (add_nonneg hslope hheight))
  have hsame (x : ℝ) {n : ℝ} (hn : 0 < n) (hx : n * x ^ 2 = 0) : x = 0 :=
    pow_eq_zero_iff two_ne_zero |>.mp ((mul_eq_zero_iff_left hn.ne').mp hx)
  exact eq_of_valueAt_eq (sub_eq_zero.mp (hsame _ hpos hslope'))
    (sub_eq_zero.mp (hsame _ hlen hheight')).symm

/-- The level line through the mean is as good as any level line. -/
theorem residual_level_le (hne : points ≠ []) (height : ℝ) :
    residual ⟨0, average (ordinates points)⟩ points ≤ residual ⟨0, height⟩ points := by
  have hlevel (height x : ℝ) : (⟨0, height⟩ : Line ℝ).valueAt x = height := by
    rw [valueAt_eq, zero_mul, zero_add]
  rw [residual_eq hne, residual_eq hne, hlevel, hlevel, sub_self, zero_pow two_ne_zero]
  gcongr
  exact sq_nonneg _

/-- **The line that is fitted is that of least squares.** With exact arithmetic, and for any points:
if the squared distances of the abscissas from their mean add up to more than the tolerance, then no
line has a smaller sum of squared vertical distances from the points, and no other line has the
same, so points on a line give that line; otherwise it is the level line through the mean, and no
level line has a smaller sum. -/
theorem fit_leastSquares (hne : points ≠ []) :
    (1e-12 < scatter points →
      (∀ line, residual (fit points) points ≤ residual line points) ∧
      (∀ line, residual line points = residual (fit points) points → line = fit points) ∧
      ∀ line, (∀ p ∈ points, p.2 = line.valueAt p.1) → fit points = line) ∧
    (scatter points ≤ 1e-12 →
      fit points = ⟨0, average (ordinates points)⟩ ∧
      ∀ height, residual (fit points) points ≤ residual ⟨0, height⟩ points) := by
  refine ⟨fun hscatter => ⟨residual_fit_le hne hscatter, fun line h => eq_fit hne hscatter h.le,
    fun line hline => (eq_fit hne hscatter ?_).symm⟩, fun hscatter => ?_⟩
  · rw [residual_eq_zero hline]
    exact residual_nonneg _ _
  · have hfit : fit points = ⟨0, average (ordinates points)⟩ := by
      rw [fit_eq, if_neg (not_lt.mpr hscatter)]
    exact ⟨hfit, fun height => hfit ▸ residual_level_le hne height⟩

/-- Three points that are on no line. -/
noncomputable def bent : List (ℝ × ℝ) := [(-1, 0), (0, 1), (1, 0)]

/-- Two points, one above the other. -/
noncomputable def upright : List (ℝ × ℝ) := [(1, 0), (1, 1)]

/-- The best line for the first is a level one too. -/
theorem fit_of_bent :
    bent ≠ [] ∧ 1e-12 < scatter bent ∧ fit bent = ⟨0, 1 / 3⟩ ∧
      (∀ line, 2 / 3 ≤ residual line bent) ∧
      upright ≠ [] ∧ scatter upright ≤ 1e-12 ∧ fit upright = ⟨0, 1 / 2⟩ := by
  have hbent : bent ≠ [] := List.cons_ne_nil _ _
  have hupright : upright ≠ [] := List.cons_ne_nil _ _
  have hscatter : scatter bent = 2 := by
    norm_num [scatter, squares, abscissas, average, bent]
  have hlarge : 1e-12 < scatter bent := by
    rw [hscatter]
    norm_num
  have hfit : fit bent = ⟨0, 1 / 3⟩ := by
    rw [fit_eq, if_pos hlarge, hscatter]
    norm_num [covariation, products, abscissas, ordinates, average, bent]
  have hresidual : residual ⟨0, 1 / 3⟩ bent = 2 / 3 := by norm_num [residual, valueAt_eq, bent]
  have hthin : scatter upright ≤ 1e-12 := by
    norm_num [scatter, squares, abscissas, average, upright]
  have hheight : average (ordinates upright) = 1 / 2 := by
    norm_num [ordinates, average, upright]
  obtain ⟨hleast, -, -⟩ := (fit_leastSquares hbent).1 hlarge
  obtain ⟨hlevel, -⟩ := (fit_leastSquares hupright).2 hthin
  rw [hfit, hresidual] at hleast
  exact ⟨hbent, hlarge, hfit, hleast, hupright, hthin, hheight ▸ hlevel⟩

end RideHud.Series.Line
