import RideHud.Proofs.Exact
import RideHud.Proofs.Series.Filtered

/-!
# Outliers without influence

Without influence, the filtered series goes on as it was wherever a value is marked, whatever that
value is. So two series that differ at marked values only have one filtered series
(`Judges.filtered_eq`), and all other values have the same marks in both (`marks_ignore_outliers`).
-/

namespace RideHud.Series

namespace OutlierRule

/-- The value at `i` is marked, as high or as low. -/
def MarkedAt (marks : List Mark) (i : ℕ) : Prop := ∃ m, marks[i]? = some m ∧ m.isMarked = true

namespace Judges

variable {α : Type} [Elementary α] {rule : OutlierRule α}
  {values values' filtered filtered' : List α} {marks marks' : List Mark} {i : ℕ}

/-- There are as many marks as values. -/
theorem getElem?_marks_eq_none_iff (h : rule.Judges values filtered marks) :
    marks[i]? = none ↔ values[i]? = none := by
  rw [List.getElem?_eq_none_iff, List.getElem?_eq_none_iff, h.length_marks]

/-- There are as many filtered values as values. -/
theorem getElem?_filtered_eq_none_iff (h : rule.Judges values filtered marks) :
    filtered[i]? = none ↔ values[i]? = none := by
  rw [List.getElem?_eq_none_iff, List.getElem?_eq_none_iff, h.length_filtered]

/-- What fills the window is not marked. -/
theorem not_markedAt (h : rule.Judges values filtered marks) (hi : i < rule.lag) :
    ¬MarkedAt marks i := by
  rintro ⟨m, hm, hmarked⟩
  rw [(h.fill i hi).2, Option.map_eq_some_iff] at hm
  obtain ⟨_, _, rfl⟩ := hm
  exact Bool.false_ne_true hmarked

/-- Behind the first values, a filtered value is made of the value there, of its mark and of the
filtered value before. -/
theorem getElem?_filtered (h : rule.Judges values filtered marks) (hlag : 1 ≤ rule.lag)
    (hi : rule.lag ≤ i) {m : Mark} (hm : marks[i]? = some m) :
    ∃ y previous, values[i]? = some y ∧ filtered[i - 1]? = some previous ∧
      filtered[i]? = some (rule.filtered previous y m) := by
  have hlt := (List.getElem?_eq_some_iff.mp hm).1
  rw [h.length_marks] at hlt
  have hy := List.getElem?_eq_getElem hlt
  have hprevious := List.getElem?_eq_getElem (l := filtered) (i := i - 1) (by
    rw [h.length_filtered]
    omega)
  exact ⟨_, _, hy, hprevious, h.mix i _ _ m hi hy hprevious hm⟩

/-- The same value behind the same filtered values has the same mark. -/
theorem getElem?_marks_eq (h : rule.Judges values filtered marks)
    (h' : rule.Judges values' filtered' marks') (hsame : values[i]? = values'[i]?)
    (hbefore : ∀ j < i, filtered[j]? = filtered'[j]?) : marks[i]? = marks'[i]? := by
  rcases Nat.lt_or_ge i rule.lag with hi | hi
  · rw [(h.fill i hi).2, (h'.fill i hi).2, hsame]
  · cases hy : values[i]? with
    | none =>
        rw [h.getElem?_marks_eq_none_iff.mpr hy, h'.getElem?_marks_eq_none_iff.mpr (hsame ▸ hy)]
    | some y =>
        rw [h.judge i y hi hy, h'.judge i y hi (hsame ▸ hy), windowAt_congr hi hbefore]

/-- **Outliers leave no trace.** If the window takes nothing of marked values, two series that
differ at marked values only have the same filtered series. -/
theorem filtered_eq (hlag : 1 ≤ rule.lag)
    (hnone : ∀ previous y mark, mark.isMarked = true → rule.filtered previous y mark = previous)
    (h : rule.Judges values filtered marks) (h' : rule.Judges values' filtered' marks')
    (hdiffer : ∀ i, values[i]? ≠ values'[i]? → MarkedAt marks i ∧ MarkedAt marks' i) :
    filtered = filtered' := by
  refine List.ext_getElem? fun i => ?_
  induction i using Nat.strongRecOn with
  | ind i ih =>
      rcases Nat.lt_or_ge i rule.lag with hi | hi
      · have hsame : values[i]? = values'[i]? := by
          by_contra hne
          exact h.not_markedAt hi (hdiffer i hne).1
        rw [(h.fill i hi).1, (h'.fill i hi).1, hsame]
      have hprevious := ih (i - 1) (by omega)
      by_cases hsame : values[i]? = values'[i]?
      · have hmarks := h.getElem?_marks_eq h' hsame ih
        cases hm : marks[i]? with
        | none =>
            have hend : values[i]? = none := h.getElem?_marks_eq_none_iff.mp hm
            rw [h.getElem?_filtered_eq_none_iff.mpr hend,
              h'.getElem?_filtered_eq_none_iff.mpr (hsame ▸ hend)]
        | some m =>
            obtain ⟨y, previous, hy, hget, htaken⟩ := h.getElem?_filtered hlag hi hm
            obtain ⟨y', previous', hy', hget', htaken'⟩ :=
              h'.getElem?_filtered hlag hi (hmarks ▸ hm)
            obtain rfl : y = y' := Option.some.inj (hy.symm.trans (hsame.trans hy'))
            obtain rfl : previous = previous' :=
              Option.some.inj (hget.symm.trans (hprevious.trans hget'))
            rw [htaken, htaken']
      · -- Both filtered series go on as they were.
        obtain ⟨⟨m, hm, hmarked⟩, m', hm', hmarked'⟩ := hdiffer i hsame
        obtain ⟨y, previous, -, hget, htaken⟩ := h.getElem?_filtered hlag hi hm
        obtain ⟨y', previous', -, hget', htaken'⟩ := h'.getElem?_filtered hlag hi hm'
        rw [htaken, htaken', hnone _ _ _ hmarked, hnone _ _ _ hmarked', ← hget, ← hget', hprevious]

end Judges

section

variable {K : Type} [DivisionRing K] [LinearOrder K]

/-- With exact arithmetic, the window takes nothing of a value without influence. -/
theorem filtered_of_isMarked (f : Exact.Functions K) {rule : OutlierRule K}
    (hinfluence : rule.influence = 0) (previous y : K) {mark : Mark}
    (hmark : mark.isMarked = true) :
    letI := Exact.elementary f
    rule.filtered previous y mark = previous := by
  let _ := Exact.elementary f
  rw [filtered, if_pos hmark, hinfluence, Exact.one_eq, zero_mul, zero_add, sub_zero, one_mul]

/-- **Outliers without influence do not affect other marks.** With exact arithmetic, for every rule
whose window has values and that gives no influence to marked values: if two series differ at values
only that are marked in both, whether as high or as low, then the marks of all other values are the
same. -/
theorem marks_ignore_outliers (f : Exact.Functions K) {rule : OutlierRule K} (hlag : 1 ≤ rule.lag)
    (hinfluence : rule.influence = 0) (s t : Series K) :
    letI := Exact.elementary f
    ∃ marks marks' : List Mark, rule.marks? s.values = .ok marks ∧
      rule.marks? t.values = .ok marks' ∧
      ((∀ i : ℕ, s.values[i]? ≠ t.values[i]? → MarkedAt marks i ∧ MarkedAt marks' i) →
        ∀ i : ℕ, s.values[i]? = t.values[i]? → marks[i]? = marks'[i]?) := by
  let _ := Exact.elementary f
  obtain ⟨marks, hmarks⟩ : ∃ marks, rule.marks? s.values = .ok marks :=
    ⟨_, if_neg (Nat.ne_zero_of_lt hlag)⟩
  obtain ⟨marks', hmarks'⟩ : ∃ marks', rule.marks? t.values = .ok marks' :=
    ⟨_, if_neg (Nat.ne_zero_of_lt hlag)⟩
  obtain ⟨filtered, h⟩ := (marks?_eq_ok_iff hlag).mp hmarks
  obtain ⟨filtered', h'⟩ := (marks?_eq_ok_iff hlag).mp hmarks'
  refine ⟨marks, marks', hmarks, hmarks', fun hdiffer i hsame => ?_⟩
  have hfiltered := h.filtered_eq hlag
    (fun previous y _ hmark => filtered_of_isMarked f hinfluence previous y hmark) h' hdiffer
  exact h.getElem?_marks_eq h' hsame fun j _ => by rw [hfiltered]

end

/-- Rational numbers with the roots of their squares; the other functions do not matter here. -/
def squares : Exact.Functions ℚ where
  pi := 0
  sqrt x := Nat.sqrt x.num.toNat / Nat.sqrt x.den
  sin x := x
  cos x := x
  tan x := x
  acos x := x
  atan2 y _ := y
  ceil := Nat.ceil

/-- A rule that gives no influence to outliers. -/
def deaf : OutlierRule ℚ where
  lag := 2
  threshold := 3
  influence := 0

/-- Two outliers side by side, the first upwards and the second downwards. -/
def upDown : Series ℚ := ⟨[[0], [2], [1], [9], [-20], [1], [3]], 1⟩

/-- The same series with other outliers in their places. -/
def downUp : Series ℚ := ⟨[[0], [2], [1], [-7], [40], [1], [3]], 1⟩

/-- What follows the outliers has the same marks, of which the last one is a mark of its own. -/
theorem marks_of_upDown :
    letI := Exact.elementary squares
    1 ≤ deaf.lag ∧ deaf.influence = 0 ∧
      deaf.marks? upDown.values = .ok [.plain, .plain, .plain, .high, .low, .plain, .high] ∧
      deaf.marks? downUp.values = .ok [.plain, .plain, .plain, .low, .high, .plain, .high] ∧
      ∃ marks marks' : List Mark, deaf.marks? upDown.values = .ok marks ∧
        deaf.marks? downUp.values = .ok marks' ∧
        ∀ i : ℕ, upDown.values[i]? = downUp.values[i]? → marks[i]? = marks'[i]? := by
  let _ := Exact.elementary squares
  have hup : deaf.marks? upDown.values
      = .ok [.plain, .plain, .plain, .high, .low, .plain, .high] := by decide +kernel
  have hdown : deaf.marks? downUp.values
      = .ok [.plain, .plain, .plain, .low, .high, .plain, .high] := by decide +kernel
  have hlag : 1 ≤ deaf.lag := by decide
  have hinfluence : deaf.influence = 0 := rfl
  obtain ⟨marks, marks', hmarks, hmarks', hsame⟩ :=
    marks_ignore_outliers squares hlag hinfluence upDown downUp
  refine ⟨hlag, hinfluence, hup, hdown, marks, marks', hmarks, hmarks', hsame fun i hne => ?_⟩
  obtain rfl := Except.ok.inj (hmarks.symm.trans hup)
  obtain rfl := Except.ok.inj (hmarks'.symm.trans hdown)
  match i with
  | 0 | 1 | 2 | 5 | 6 | _ + 7 => exact absurd rfl hne
  | 3 | 4 => exact ⟨⟨_, rfl, rfl⟩, _, rfl, rfl⟩

end OutlierRule

end RideHud.Series
