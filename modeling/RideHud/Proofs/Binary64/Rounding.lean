import RideHud.Proofs.Binary64.Value

/-!
# Rounding

To round a number on a grid to the next whole number of steps is to take the nearest representable
number (`OnGrid.nearest`). How far it is off is known, and a representable number that is off by
less is the one (`Nearest.eq_of_close`).
-/

namespace RideHud.Binary64

open Float.Model (UnpackedFloat Format totalExponent)
open Float.Model.UnpackedFloat

/-! ## Nearest numbers -/

/-- No representable number is nearer to `y` than `z`, which is one, and `y` does not lie beyond the
largest of them. -/
structure Nearest (z y : ℝ) : Prop where
  representable : Representable z
  le : ∀ w, Representable w → |z - y| ≤ |w - y|
  error_le : |z - y| ≤ 2 ^ (-53 : ℤ) * |y| + 2 ^ (-1075 : ℤ)

theorem Nearest.neg {z y : ℝ} (h : Nearest z y) : Nearest (-z) (-y) := by
  have hneg (w : ℝ) : |-w - -y| = |w - y| := by
    rw [← abs_neg (w - y)]
    congr 1
    ring
  refine ⟨h.representable.neg, fun w hw => ?_, ?_⟩
  · have hle := h.le (-w) hw.neg
    rwa [← hneg z, ← hneg (-w), neg_neg] at hle
  · rw [hneg, abs_neg]
    exact h.error_le

/-- Rounding keeps to the side of a representable number. -/
theorem Nearest.le_of_le {z y w : ℝ} (h : Nearest z y) (hw : Representable w) (hle : w ≤ y) :
    w ≤ z := by
  by_contra hlt
  have hnear := h.le w hw
  rw [abs_of_neg (by linarith), abs_of_nonpos (by linarith)] at hnear
  linarith

theorem Nearest.abs_le_of_abs_le {z y w : ℝ} (h : Nearest z y) (hw : Representable w)
    (hle : |y| ≤ w) : |z| ≤ w := by
  have hbounds := abs_le.mp hle
  have hneg := h.neg.le_of_le hw.neg (by linarith)
  have hpos := h.le_of_le hw.neg (by linarith)
  exact abs_le.mpr ⟨by linarith, by linarith⟩

/-! ## Grids -/

/-- The representable numbers near `x * 2 ^ t` are multiples of `2 ^ t`, as far as exponents may be
large. -/
structure OnGrid (t : ℤ) (x : ℝ) : Prop where
  le_exponent : -1074 ≤ t
  abs_lt : |x| < 2 ^ 53
  full : 2 ^ 52 ≤ |x| ∨ t = -1074

/-- Every number is on a grid. -/
theorem exists_onGrid (y : ℝ) : ∃ t x, OnGrid t x ∧ y = x * 2 ^ t := by
  by_cases hsmall : |y| < 2 ^ (-1021 : ℤ)
  · refine ⟨-1074, y / 2 ^ (-1074 : ℤ), ⟨le_refl _, ?_, .inr rfl⟩, ?_⟩
    · rw [abs_div, abs_of_pos (by positivity : (0 : ℝ) < 2 ^ (-1074 : ℤ)),
        div_lt_iff₀ (by positivity)]
      calc |y| < 2 ^ (-1021 : ℤ) := hsmall
        _ = 2 ^ (53 : ℤ) * 2 ^ (-1074 : ℤ) := by rw [← zpow_add₀ (by norm_num)]; norm_num
    · rw [div_mul_cancel₀ _ (by positivity)]
  · have hpos : 0 < |y| := lt_of_lt_of_le (by positivity) (not_lt.mp hsmall)
    obtain ⟨n, hle, hlt⟩ := exists_mem_Ico_zpow hpos (by norm_num : (1 : ℝ) < 2)
    have hmin : -1021 < n + 1 := by
      rw [← zpow_lt_zpow_iff_right₀ (by norm_num : (1 : ℝ) < 2)]
      exact lt_of_le_of_lt (not_lt.mp hsmall) hlt
    have hpow : (0 : ℝ) < 2 ^ (n - 52) := by positivity
    refine ⟨n - 52, y / 2 ^ (n - 52), ⟨by omega, ?_, .inl ?_⟩, ?_⟩
    · rw [abs_div, abs_of_pos hpow, div_lt_iff₀ hpow]
      calc |y| < 2 ^ (n + 1) := hlt
        _ = 2 ^ (53 : ℤ) * 2 ^ (n - 52) := by
            rw [← zpow_add₀ (by norm_num)]
            congr 1
            omega
    · rw [abs_div, abs_of_pos hpow, le_div_iff₀ hpow]
      calc (2 : ℝ) ^ (52 : ℤ) * 2 ^ (n - 52) = 2 ^ n := by
            rw [← zpow_add₀ (by norm_num)]
            congr 1
            omega
        _ ≤ |y| := hle
    · rw [div_mul_cancel₀ _ (by positivity)]

/-- No whole number is nearer than one that is next to a number. -/
theorem abs_sub_le_of_next {x : ℝ} {r : ℤ} (hr : |r - x| ≤ 1 / 2) (k : ℤ) :
    |r - x| ≤ |k - x| := by
  by_cases hk : k = r
  · rw [hk]
  · have hfar : (1 : ℝ) ≤ |(k : ℝ) - r| := by
      have hne : 1 ≤ |k - r| := Int.one_le_abs (sub_ne_zero.mpr hk)
      exact_mod_cast hne
    have htriangle : |(k : ℝ) - r| ≤ |k - x| + |r - x| := by
      have hsum := abs_sub_le (k : ℝ) x r
      rwa [abs_sub_comm x] at hsum
    linarith

namespace OnGrid

variable {t : ℤ} {x : ℝ}

/-- A number that is not too large is on a grid that is not too coarse. -/
theorem exponent_le (h : OnGrid t x) {n : ℤ} (hn : -1021 ≤ n) (hlt : |x * 2 ^ t| < 2 ^ n) :
    t ≤ n - 53 := by
  rcases h.full with hfull | rfl
  · have hpow : (2 : ℝ) ^ (52 + t) < 2 ^ n := by
      calc (2 : ℝ) ^ (52 + t) = 2 ^ 52 * 2 ^ t := by
            rw [zpow_add₀ (by norm_num)]
            norm_num
        _ ≤ |x| * 2 ^ t := by gcongr
        _ = |x * 2 ^ t| := by rw [abs_mul, abs_of_pos (by positivity : (0 : ℝ) < 2 ^ t)]
        _ < 2 ^ n := hlt
    have hexponent := (zpow_lt_zpow_iff_right₀ (by norm_num : (1 : ℝ) < 2)).mp hpow
    omega
  · omega

/-- A multiple that is next to a number is representable, if the grid is not too coarse. -/
theorem representable (h : OnGrid t x) (ht : t ≤ 970) {r : ℤ} (hr : |r - x| ≤ 1 / 2) :
    Representable (r * 2 ^ t) := by
  have hmin := h.le_exponent
  have hle : |r| ≤ 2 ^ 53 := by
    have hreal : |(r : ℝ)| < 2 ^ 53 + 1 := by
      have hsum := abs_sub_abs_le_abs_sub (r : ℝ) x
      linarith [h.abs_lt]
    have hint : |r| < 2 ^ 53 + 1 := by exact_mod_cast hreal
    omega
  rcases lt_or_eq_of_le hle with hlt | heq
  · exact ⟨r, t, hlt, hmin, by omega, rfl⟩
  · -- The mantissa has one bit more, and the last one is zero.
    obtain ⟨k, hk⟩ : ∃ k : ℤ, r = k * 2 := by
      rcases abs_eq (by norm_num) |>.mp heq with hr | hr
      · exact ⟨2 ^ 52, by rw [hr]; norm_num⟩
      · exact ⟨-2 ^ 52, by rw [hr]; norm_num⟩
    refine ⟨k, t + 1, ?_, by omega, by omega, ?_⟩
    · rw [hk, abs_mul, abs_two] at heq
      omega
    · rw [hk, zpow_add₀ (by norm_num)]
      push_cast
      ring

/-- A representable number is a multiple of the grid, or it lies half a step before all numbers that
are on it. -/
theorem multiple_or_before (h : OnGrid t x) {w : ℝ} (hw : Representable w) :
    (∃ k : ℤ, w = k * 2 ^ t) ∨ 2 ^ 52 ≤ |x| ∧ |w| ≤ (2 ^ 52 - 1 / 2) * 2 ^ t := by
  obtain ⟨m, e, hm, hemin, -, rfl⟩ := hw
  rcases le_or_gt t e with hte | het
  · obtain ⟨n, rfl⟩ := Int.le.dest hte
    refine .inl ⟨m * 2 ^ n, ?_⟩
    rw [zpow_add₀ (by norm_num), zpow_natCast]
    push_cast
    ring
  · refine .inr ⟨h.full.resolve_right (by omega), ?_⟩
    have hmreal : |(m : ℝ)| ≤ 2 ^ 53 - 1 := by
      have hint : |m| ≤ 2 ^ 53 - 1 := by omega
      exact_mod_cast hint
    calc |(m : ℝ) * 2 ^ e| = |(m : ℝ)| * 2 ^ e := by
          rw [abs_mul, abs_of_pos (by positivity : (0 : ℝ) < 2 ^ e)]
      _ ≤ (2 ^ 53 - 1) * 2 ^ (t - 1) := by
          gcongr
          · norm_num
          · omega
      _ = (2 ^ 52 - 1 / 2) * 2 ^ t := by
          rw [zpow_sub₀ (by norm_num)]
          ring

/-- Half of a step of the grid is a share of the number, or it is half of the least step. -/
theorem error_le (h : OnGrid t x) {r : ℤ} (hr : |r - x| ≤ 1 / 2) :
    |r * 2 ^ t - x * 2 ^ t| ≤ 2 ^ (-53 : ℤ) * |x * 2 ^ t| + 2 ^ (-1075 : ℤ) := by
  have hpow : (0 : ℝ) < 2 ^ t := by positivity
  have hhalf : |r * 2 ^ t - x * 2 ^ t| ≤ 2 ^ t / 2 := by
    rw [← sub_mul, abs_mul, abs_of_pos hpow]
    have hmul := mul_le_mul_of_nonneg_right hr hpow.le
    linarith
  rw [abs_mul x, abs_of_pos hpow]
  rcases h.full with hfull | rfl
  · have hstep : (2 : ℝ) ^ t / 2 ≤ 2 ^ (-53 : ℤ) * (|x| * 2 ^ t) := by
      have hshare : (1 : ℝ) / 2 ≤ 2 ^ (-53 : ℤ) * |x| := by
        calc (1 : ℝ) / 2 = 2 ^ (-53 : ℤ) * 2 ^ 52 := by norm_num
          _ ≤ 2 ^ (-53 : ℤ) * |x| := by gcongr
      have hmul := mul_le_mul_of_nonneg_right hshare hpow.le
      linarith
    exact (hhalf.trans hstep).trans (le_add_of_nonneg_right (by positivity))
  · have hstep : (2 : ℝ) ^ (-1074 : ℤ) / 2 = 2 ^ (-1075 : ℤ) := by
      rw [div_eq_mul_inv, ← zpow_neg_one, ← zpow_add₀ (by norm_num)]
      norm_num
    exact (hhalf.trans hstep.le).trans (le_add_of_nonneg_left (by positivity))

/-- A multiple that is next to a number is nearest to it. -/
theorem nearest (h : OnGrid t x) {r : ℤ} (hr : |r - x| ≤ 1 / 2)
    (hrepresentable : Representable (r * 2 ^ t)) : Nearest (r * 2 ^ t) (x * 2 ^ t) where
  representable := hrepresentable
  error_le := h.error_le hr
  le w hw := by
    have hpow : (0 : ℝ) < 2 ^ t := by positivity
    have hfactor (a : ℝ) : |a * 2 ^ t - x * 2 ^ t| = |a - x| * 2 ^ t := by
      rw [← sub_mul, abs_mul, abs_of_pos hpow]
    rw [hfactor]
    rcases h.multiple_or_before hw with ⟨k, rfl⟩ | ⟨hfull, hbefore⟩
    · rw [hfactor]
      exact mul_le_mul_of_nonneg_right (abs_sub_le_of_next hr k) hpow.le
    · -- A multiple lies between, and that is not nearer.
      have hbetween : |r - x| ≤ |x| - 2 ^ 52 := by
        rcases abs_cases x with ⟨hx, -⟩ | ⟨hx, -⟩
        · have hnext := abs_sub_le_of_next hr (2 ^ 52)
          push_cast at hnext
          rw [abs_of_nonpos (by linarith : 4503599627370496 - x ≤ 0)] at hnext
          linarith
        · have hnext := abs_sub_le_of_next hr (-2 ^ 52)
          push_cast at hnext
          rw [abs_of_nonneg (by linarith : 0 ≤ -4503599627370496 - x)] at hnext
          linarith
      have htriangle : |x * 2 ^ t| - |w| ≤ |w - x * 2 ^ t| := by
        rw [abs_sub_comm]
        exact abs_sub_abs_le_abs_sub _ _
      rw [abs_mul, abs_of_pos hpow] at htriangle
      calc |r - x| * 2 ^ t ≤ (|x| - 2 ^ 52) * 2 ^ t := by gcongr
        _ ≤ |x| * 2 ^ t - (2 ^ 52 - 1 / 2) * 2 ^ t := by linarith
        _ ≤ |w - x * 2 ^ t| := by linarith

end OnGrid

/-- How far representable numbers are from each other. -/
theorem Representable.le_abs_sub {z w : ℝ} (hz : Representable z) (hw : Representable w)
    (hne : z ≠ w) : 2 ^ (-53 : ℤ) * |w| ≤ |z - w| := by
  obtain ⟨t, x, hgrid, rfl⟩ := exists_onGrid w
  have hpow : (0 : ℝ) < 2 ^ t := by positivity
  rw [abs_mul, abs_of_pos hpow, ← mul_assoc]
  rcases hgrid.multiple_or_before hz with ⟨k, rfl⟩ | ⟨hfull, hbefore⟩
  · -- Both are multiples of the grid, so there is a step between them.
    have hx : ∃ j : ℤ, x = j := by
      rcases hgrid.multiple_or_before hw with ⟨j, hj⟩ | ⟨hfull, hbefore⟩
      · exact ⟨j, mul_right_cancel₀ hpow.ne' hj⟩
      · rw [abs_mul, abs_of_pos hpow] at hbefore
        have hlt := le_of_mul_le_mul_right hbefore hpow
        linarith
    obtain ⟨j, rfl⟩ := hx
    have hstep : (1 : ℝ) ≤ |(k : ℝ) - j| := by
      have hkj : k ≠ j := fun heq => hne (by rw [heq])
      have hint : 1 ≤ |k - j| := Int.one_le_abs (sub_ne_zero.mpr hkj)
      exact_mod_cast hint
    have hshare : 2 ^ (-53 : ℤ) * |(j : ℝ)| ≤ 1 := by
      calc 2 ^ (-53 : ℤ) * |(j : ℝ)| ≤ 2 ^ (-53 : ℤ) * 2 ^ 53 := by
            gcongr
            exact hgrid.abs_lt.le
        _ = 1 := by norm_num
    rw [← sub_mul, abs_mul, abs_of_pos hpow]
    exact mul_le_mul_of_nonneg_right (hshare.trans hstep) hpow.le
  · have htriangle : |x * 2 ^ t| - |z| ≤ |z - x * 2 ^ t| := by
      rw [abs_sub_comm]
      exact abs_sub_abs_le_abs_sub _ _
    rw [abs_mul, abs_of_pos hpow] at htriangle
    have hshare : 2 ^ (-53 : ℤ) * |x| ≤ |x| - (2 ^ 52 - 1 / 2) := by
      have hsmall : (2 : ℝ) ^ (-53 : ℤ) * 2 ^ 52 = 1 / 2 := by norm_num
      have hlt : (2 : ℝ) ^ (-53 : ℤ) < 1 := by norm_num
      nlinarith
    calc 2 ^ (-53 : ℤ) * |x| * 2 ^ t ≤ (|x| - (2 ^ 52 - 1 / 2)) * 2 ^ t := by gcongr
      _ ≤ |z - x * 2 ^ t| := by linarith

/-- A representable number that is much nearer than its neighbours is the nearest. -/
theorem Nearest.eq_of_close {z y w : ℝ} (h : Nearest z y) (hw : Representable w)
    (hclose : |w - y| < 2 ^ (-54 : ℤ) * |w|) : z = w := by
  by_contra hne
  have hfar := h.representable.le_abs_sub hw hne
  have hle := h.le w hw
  have htriangle : |z - w| ≤ |z - y| + |w - y| := by
    have hsum := abs_sub_le z y w
    rwa [abs_sub_comm y] at hsum
  have hhalf : (2 : ℝ) ^ (-53 : ℤ) * |w| = 2 * (2 ^ (-54 : ℤ) * |w|) := by
    rw [show (-53 : ℤ) = 1 + -54 by norm_num, zpow_add₀ (by norm_num)]
    ring
  linarith

end RideHud.Binary64
