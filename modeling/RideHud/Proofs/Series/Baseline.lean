import RideHud.Proofs.Series.Influence
import RideHud.Proofs.Series.Units

/-!
# Outliers over a flat baseline

A window that holds one value only has that value as its mean and no spread, so whatever differs
from it is an outlier, by whatever threshold (`judge_flat`). Without influence the window takes the
same value once more, be it because the new value is an outlier or because it is no other
(`filtered_side`). So the window stays as it is along the whole series (`marksAfter_flat`), and no
number of outliers hides or fakes another one (`marks_tell_sides`).
-/

namespace RideHud.Series

open scoped RideHud.Exact

/-! ## One value only -/

section

variable {n : ℕ} (c : ℝ)

/-- A list that holds one value only is what becomes of it if it is multiplied by zero. -/
theorem replicate_eq_map : List.replicate n c = (List.replicate n c).map fun x => 0 * x + c := by
  rw [List.map_replicate, zero_mul, zero_add]

theorem mean_replicate (hn : n ≠ 0) : mean (List.replicate n c) = c := by
  rw [replicate_eq_map, mean_map 0 c (mt (List.replicate_eq_nil_iff c).mp hn), zero_mul, zero_add]

theorem spread_replicate (hn : n ≠ 0) : spread (List.replicate n c) = 0 := by
  rw [replicate_eq_map, spread_map 0 c (mt (List.replicate_eq_nil_iff c).mp hn), abs_zero,
    zero_mul]

end

namespace OutlierRule

variable {rule : OutlierRule ℝ} {n : ℕ} {c y : ℝ}

/-! ## Flat windows -/

/-- The mark for the side of `c` on which `y` lies. -/
noncomputable def side (c y : ℝ) : Mark := if c < y then .high else if y < c then .low else .plain

theorem side_self (c : ℝ) : side c c = .plain := by
  rw [side, if_neg (lt_irrefl c), if_neg (lt_irrefl c)]

theorem side_of_ne (h : y ≠ c) : side c y = if c < y then .high else .low := by
  unfold side
  rcases h.lt_or_gt with hlt | hgt
  · rw [if_neg hlt.not_gt, if_pos hlt, if_neg hlt.not_gt]
  · rw [if_pos hgt, if_pos hgt]

theorem toInt_side (c y : ℝ) : (side c y).toInt = SignType.sign (y - c) := by
  unfold side
  rcases lt_trichotomy y c with hlt | rfl | hgt
  · rw [if_neg hlt.not_gt, if_pos hlt, sign_neg (sub_neg.mpr hlt)]
    rfl
  · rw [if_neg (lt_irrefl y), if_neg (lt_irrefl y), sub_self, sign_zero]
    rfl
  · rw [if_pos hgt, sign_pos (sub_pos.mpr hgt)]
    rfl

/-- Over a flat window, a value has the mark of its side. -/
theorem judge_flat (hn : n ≠ 0) (y : ℝ) : rule.judge (List.replicate n c) y = side c y := by
  unfold judge
  dsimp only
  rw [mean_replicate c hn, spread_replicate c hn, mul_zero, Exact.magnitude_eq_abs]
  by_cases h : y = c
  · rw [h, side_self, if_neg]
    rw [sub_self, abs_zero]
    exact lt_irrefl 0
  · rw [side_of_ne h, if_pos (abs_pos.mpr (sub_ne_zero.mpr h))]

/-- Without influence, a flat window takes its value once more. -/
theorem filtered_side (hinfluence : rule.influence = 0) (c y : ℝ) :
    rule.filtered c y (side c y) = c := by
  by_cases h : y = c
  · rw [h, side_self]
    rfl
  · refine filtered_of_isMarked Exact.real hinfluence c y ?_
    rw [side_of_ne h]
    split <;> rfl

/-- **A flat window stays flat.** Without influence, every value behind a flat window has the mark of
its side, whatever comes before it. -/
theorem marksAfter_flat (hinfluence : rule.influence = 0) (hn : n ≠ 0) (ys : List ℝ) :
    rule.marksAfter (List.replicate n c) ys = ys.map (side c) := by
  induction ys with
  | nil => rfl
  | cons y ys ih =>
      have hlast : (List.replicate n c).getLastD y = c := by
        rw [List.getLastD_eq_getLast?, List.getLast?_replicate, if_neg hn]
        rfl
      have hnext : (List.replicate n c).tail ++ [c] = List.replicate n c := by
        rw [List.tail_replicate, ← List.replicate_succ', Nat.sub_add_cancel (Nat.pos_of_ne_zero hn)]
      rw [marksAfter, judge_flat hn, hlast, filtered_side hinfluence, hnext, ih, List.map_cons]

/-- **Marks over a flat baseline tell the sides.** For every rule whose window has values and that
gives no influence to marked values, whatever its threshold, and for every series of real numbers
whose first values, which fill the window, are all `c`: none of these is marked, and every later
value is marked as high if it is above `c`, as low if it is below, and not at all if it is `c`. -/
theorem marks_tell_sides (hlag : 1 ≤ rule.lag) (hinfluence : rule.influence = 0) {values : List ℝ}
    (hflat : ∀ y ∈ values.take rule.lag, y = c) :
    ∃ marks : List Mark, rule.marks? values = .ok marks ∧
      marks.map Mark.toInt = (values.take rule.lag).map (fun _ => 0) ++
        (values.drop rule.lag).map fun y => (SignType.sign (y - c) : ℤ) := by
  refine ⟨_, if_neg (Nat.ne_zero_of_lt hlag), ?_⟩
  rw [List.map_append, List.map_map]
  refine congrArg₂ (· ++ ·) rfl ?_
  rcases Nat.lt_or_ge rule.lag values.length with hlong | hshort
  · have hwindow : values.take rule.lag = List.replicate rule.lag c := by
      rw [List.eq_replicate_iff, List.length_take, Nat.min_eq_left hlong.le]
      exact ⟨rfl, hflat⟩
    rw [hwindow, marksAfter_flat hinfluence (Nat.ne_zero_of_lt hlag), List.map_map]
    exact List.map_congr_left fun y _ => toInt_side c y
  · rw [List.drop_eq_nil_of_le hshort]
    rfl

/-- A series at rest, with outliers side by side and one apart. -/
noncomputable def jolts : List ℝ := [2, 2, 2, 7, 9, -1, 2, 2, 3].map fun y : ℤ => (y : ℝ)

/-- A rule with a very high threshold. -/
noncomputable def tolerant : OutlierRule ℝ where
  lag := 2
  threshold := 1000
  influence := 0

/-- Each of them is marked with its side, and nothing else is. -/
theorem marks_of_jolts :
    1 ≤ tolerant.lag ∧ tolerant.influence = 0 ∧ (∀ y ∈ jolts.take tolerant.lag, y = 2) ∧
      ∃ marks, tolerant.marks? jolts = .ok marks ∧
        marks.map Mark.toInt = [0, 0, 0, 1, 1, -1, 0, 0, 1] := by
  have hlag : 1 ≤ tolerant.lag := by decide
  have hinfluence : tolerant.influence = 0 := rfl
  have hflat : ∀ y ∈ jolts.take tolerant.lag, y = 2 := by
    simp [jolts, tolerant]
  obtain ⟨marks, hmarks, hsides⟩ := marks_tell_sides hlag hinfluence hflat
  refine ⟨hlag, hinfluence, hflat, marks, hmarks, hsides.trans ?_⟩
  norm_num [jolts, tolerant]

end OutlierRule

end RideHud.Series
