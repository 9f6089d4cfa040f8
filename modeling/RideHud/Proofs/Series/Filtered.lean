import Mathlib.Data.Nat.Notation
import RideHud.Series
import RideHud.Series.Outliers

/-!
# Outliers and the filtered series

Behind the marks of a series stands the filtered series: it has the values as they are, except that
a marked value is mixed with the filtered value before it. Every value is compared with the `lag`
filtered values before it. These equations have exactly one solution (`Judges.unique`), and the
marks are those that belong to it (`marks?_eq_ok_iff`). As they tell each filtered value and each
mark from values up to the same place only, they hold for a first part of a series too
(`Judges.take`), so no mark depends on what comes later (`marks_causal`).
-/

namespace RideHud.Series

/-- The first records of a series are a series. -/
theorem ofRows?_take {α : Type} {rows : List (List α)} {s : Series α} {n : ℕ}
    (h : ofRows? rows = .ok s) (hn : 1 ≤ n) :
    ofRows? (rows.take n) = .ok ⟨s.rows.take n, s.arity⟩ := by
  obtain ⟨n, rfl⟩ := Nat.exists_eq_add_of_le' hn
  match rows, h with
  | (c :: row) :: rows, rfl => rfl

/-- The first part of a list has entries at its first places only. -/
theorem lt_of_getElem?_take {β : Type} {xs : List β} {n i : ℕ} {x : β}
    (h : (xs.take n)[i]? = some x) : i < n := by
  have hlt := (List.getElem?_eq_some_iff.mp h).1
  rw [List.length_take] at hlt
  omega

namespace OutlierRule

variable {α : Type} [Elementary α]

/-! ## Equations -/

/-- The filtered values that the value at `i` is compared with. -/
def windowAt (rule : OutlierRule α) (filtered : List α) (i : ℕ) : List α :=
  (filtered.drop (i - rule.lag)).take rule.lag

/-- How the marks and the filtered values of a series belong together, place by place. -/
structure Judges (rule : OutlierRule α) (values filtered : List α) (marks : List Mark) : Prop where
  length_filtered : filtered.length = values.length
  length_marks : marks.length = values.length
  /-- The first values fill the window. -/
  fill : ∀ i < rule.lag, filtered[i]? = values[i]? ∧ marks[i]? = values[i]?.map fun _ => .plain
  /-- Every other value is judged by the window before it. -/
  judge : ∀ i y, rule.lag ≤ i → values[i]? = some y →
    marks[i]? = some (rule.judge (rule.windowAt filtered i) y)
  /-- Marked values are mixed with the filtered value before. -/
  mix : ∀ i y previous mark, rule.lag ≤ i → values[i]? = some y →
    filtered[i - 1]? = some previous → marks[i]? = some mark →
    filtered[i]? = some (rule.filtered previous y mark)

variable {rule : OutlierRule α} {values filtered filtered' : List α} {marks marks' : List Mark}

omit [Elementary α] in
/-- The window at a place depends only on the filtered values before that place. -/
theorem windowAt_congr {i : ℕ} (hi : rule.lag ≤ i) (h : ∀ j < i, filtered[j]? = filtered'[j]?) :
    rule.windowAt filtered i = rule.windowAt filtered' i := by
  refine List.ext_getElem? fun j => ?_
  rw [windowAt, windowAt, List.getElem?_take, List.getElem?_take]
  split
  · rw [List.getElem?_drop, List.getElem?_drop]
    exact h _ (by omega)
  · rfl

namespace Judges

/-- **The equations have one solution only.** -/
theorem unique (hlag : 1 ≤ rule.lag) (h : rule.Judges values filtered marks)
    (h' : rule.Judges values filtered' marks') : filtered = filtered' ∧ marks = marks' := by
  suffices ∀ i, filtered[i]? = filtered'[i]? ∧ marks[i]? = marks'[i]? from
    ⟨List.ext_getElem? fun i => (this i).1, List.ext_getElem? fun i => (this i).2⟩
  intro i
  induction i using Nat.strongRecOn with
  | ind i ih =>
      rcases Nat.lt_or_ge i rule.lag with hi | hi
      · exact ⟨(h.fill i hi).1.trans (h'.fill i hi).1.symm,
          (h.fill i hi).2.trans (h'.fill i hi).2.symm⟩
      cases hy : values[i]? with
      | none =>
          have hend : values.length ≤ i := List.getElem?_eq_none_iff.mp hy
          rw [List.getElem?_eq_none (h.length_filtered ▸ hend),
            List.getElem?_eq_none (h'.length_filtered ▸ hend),
            List.getElem?_eq_none (h.length_marks ▸ hend),
            List.getElem?_eq_none (h'.length_marks ▸ hend)]
          exact ⟨rfl, rfl⟩
      | some y =>
          have hlt : i - 1 < filtered.length := by
            have := (List.getElem?_eq_some_iff.mp hy).1
            rw [h.length_filtered]
            omega
          have hprevious := List.getElem?_eq_getElem hlt
          have hmark := h.judge i y hi hy
          have hmark' := h'.judge i y hi hy
          rw [← windowAt_congr hi fun j hj => (ih j hj).1] at hmark'
          refine ⟨?_, hmark.trans hmark'.symm⟩
          exact (h.mix i y _ _ hi hy hprevious hmark).trans
            (h'.mix i y _ _ hi hy ((ih (i - 1) (by omega)).1 ▸ hprevious) hmark').symm

/-- **The equations hold for the first part of a series.** -/
theorem take (h : rule.Judges values filtered marks) (n : ℕ) :
    rule.Judges (values.take n) (filtered.take n) (marks.take n) where
  length_filtered := by rw [List.length_take, List.length_take, h.length_filtered]
  length_marks := by rw [List.length_take, List.length_take, h.length_marks]
  fill i hi := by
    rw [List.getElem?_take, List.getElem?_take, List.getElem?_take]
    split
    · exact h.fill i hi
    · exact ⟨rfl, rfl⟩
  judge i y hi hy := by
    have hn := lt_of_getElem?_take hy
    rw [List.getElem?_take_of_lt hn] at hy
    rw [List.getElem?_take_of_lt hn, h.judge i y hi hy]
    rw [windowAt_congr hi fun j hj => (List.getElem?_take_of_lt (Nat.lt_trans hj hn)).symm]
  mix i y previous mark hi hy hprevious hmark := by
    have hn := lt_of_getElem?_take hy
    rw [List.getElem?_take_of_lt hn] at hy hmark
    rw [List.getElem?_take_of_lt (Nat.lt_of_le_of_lt (Nat.sub_le i 1) hn)] at hprevious
    rw [List.getElem?_take_of_lt hn]
    exact h.mix i y previous mark hi hy hprevious hmark

end Judges

/-! ## The solution -/

/-- The filtered values that follow a window. -/
def filteredAfter (rule : OutlierRule α) : (window : List α) → (values : List α) → List α
  | _, [] => []
  | window, y :: ys =>
    let taken := rule.filtered (window.getLastD y) y (rule.judge window y)
    taken :: filteredAfter rule (window.tail ++ [taken]) ys

/-- The filtered series: the first values as they are, then what the window takes. -/
def filteredSeries (rule : OutlierRule α) (values : List α) : List α :=
  values.take rule.lag ++ rule.filteredAfter (values.take rule.lag) (values.drop rule.lag)

theorem length_filteredAfter (rule : OutlierRule α) (window values : List α) :
    (rule.filteredAfter window values).length = values.length := by
  induction values generalizing window with
  | nil => rfl
  | cons y ys ih => rw [filteredAfter, List.length_cons, List.length_cons, ih]

theorem length_marksAfter (rule : OutlierRule α) (window values : List α) :
    (rule.marksAfter window values).length = values.length := by
  induction values generalizing window with
  | nil => rfl
  | cons y ys ih => rw [marksAfter, List.length_cons, List.length_cons, ih]

/-- What is told of the `k`-th value behind a window, by the filtered values up to it. -/
theorem getElem?_after (hlag : 1 ≤ rule.lag) {window ys : List α} {k : ℕ} {y : α}
    (hwindow : window.length = rule.lag) (hy : ys[k]? = some y) :
    (rule.marksAfter window ys)[k]? =
        some (rule.judge (((window ++ rule.filteredAfter window ys).drop k).take rule.lag) y) ∧
      ∀ previous, (window ++ rule.filteredAfter window ys)[k + rule.lag - 1]? = some previous →
        (rule.filteredAfter window ys)[k]? = some (rule.filtered previous y (rule.judge
          (((window ++ rule.filteredAfter window ys).drop k).take rule.lag) y)) := by
  induction ys generalizing window k with
  | nil => cases hy
  | cons y' ys ih =>
      cases k with
      | zero =>
          obtain rfl := Option.some.inj hy
          rw [List.drop_zero, List.take_left' hwindow]
          refine ⟨rfl, fun previous hprevious => ?_⟩
          rw [Nat.zero_add, List.getElem?_append_left (by omega), ← hwindow,
            ← List.getLast?_eq_getElem?] at hprevious
          rw [filteredAfter, List.getLastD_eq_getLast?, hprevious]
          rfl
      | succ k =>
          -- The window moves on by one, and so does the place.
          obtain ⟨w, rest, rfl⟩ := List.exists_cons_of_length_pos (hwindow ▸ hlag)
          have hnext : (rest ++ [rule.filtered ((w :: rest).getLastD y') y'
              (rule.judge (w :: rest) y')]).length = rule.lag := by
            rwa [List.length_append, List.length_singleton]
          obtain ⟨hmark, htaken⟩ := ih hnext hy
          rw [List.append_assoc, List.singleton_append] at hmark htaken
          refine ⟨hmark, fun previous hprevious => htaken previous ?_⟩
          rw [show k + 1 + rule.lag - 1 = k + rule.lag - 1 + 1 by omega] at hprevious
          exact hprevious

/-- **The filtered series solves the equations**, with the marks of the rule. -/
theorem judges_filteredSeries (rule : OutlierRule α) (hlag : 1 ≤ rule.lag) (values : List α) :
    rule.Judges values (rule.filteredSeries values)
      ((values.take rule.lag).map (fun _ => .plain) ++
        rule.marksAfter (values.take rule.lag) (values.drop rule.lag)) := by
  have hfiltered : (rule.filteredSeries values).length = values.length := by
    rw [filteredSeries, List.length_append, length_filteredAfter, ← List.length_append,
      List.take_append_drop]
  have hmarks : ((values.take rule.lag).map (fun _ => Mark.plain) ++
      rule.marksAfter (values.take rule.lag) (values.drop rule.lag)).length = values.length := by
    rw [List.length_append, List.length_map, length_marksAfter, ← List.length_append,
      List.take_append_drop]
  have hbehind : ∀ {i y}, rule.lag ≤ i → values[i]? = some y →
      (values.take rule.lag).length = rule.lag ∧
        (values.drop rule.lag)[i - rule.lag]? = some y := by
    intro i y hi hy
    have hlt := (List.getElem?_eq_some_iff.mp hy).1
    rw [List.length_take, List.getElem?_drop, Nat.add_sub_cancel' hi]
    exact ⟨by omega, hy⟩
  constructor
  case length_filtered => exact hfiltered
  case length_marks => exact hmarks
  case fill =>
    intro i hi
    rcases Nat.lt_or_ge i values.length with hlt | hge
    · have hwindow : i < (values.take rule.lag).length := by
        rw [List.length_take]
        omega
      rw [filteredSeries, List.getElem?_append_left hwindow,
        List.getElem?_append_left (by rwa [List.length_map]), List.getElem?_map,
        List.getElem?_take_of_lt hi]
      exact ⟨rfl, rfl⟩
    · rw [List.getElem?_eq_none (l := values) hge]
      exact ⟨List.getElem?_eq_none (hfiltered ▸ hge), List.getElem?_eq_none (hmarks ▸ hge)⟩
  case judge =>
    intro i y hi hy
    obtain ⟨hwindow, hy⟩ := hbehind hi hy
    rw [List.getElem?_append_right (by rw [List.length_map]; omega), List.length_map, hwindow]
    exact (getElem?_after hlag hwindow hy).1
  case mix =>
    intro i y previous mark hi hy hprevious hmark
    obtain ⟨hwindow, hy⟩ := hbehind hi hy
    obtain ⟨hjudge, htaken⟩ := getElem?_after hlag hwindow hy
    rw [List.getElem?_append_right (by rw [List.length_map]; omega), List.length_map, hwindow,
      hjudge] at hmark
    rw [filteredSeries, List.getElem?_append_right (by omega), hwindow, ← Option.some.inj hmark]
    refine htaken previous ?_
    rwa [Nat.sub_add_cancel hi]

/-- **The marks of a series are those that belong to its filtered series.** -/
theorem marks?_eq_ok_iff (hlag : 1 ≤ rule.lag) :
    rule.marks? values = .ok marks ↔ ∃ filtered, rule.Judges values filtered marks := by
  have hjudges := rule.judges_filteredSeries hlag values
  have hmarks : rule.marks? values = .ok _ := if_neg (Nat.ne_zero_of_lt hlag)
  rw [hmarks, Except.ok.injEq]
  constructor
  · rintro rfl
    exact ⟨_, hjudges⟩
  · rintro ⟨filtered, h⟩
    exact (hjudges.unique hlag h).2

/-- **Marks do not depend on later values.** For every rule whose window has values, the marks of
the first records of a series are the first marks of the whole series, also where the records do
not fill the window. -/
theorem marks_causal (hlag : 1 ≤ rule.lag) {rows : List (List α)} {s : Series α}
    (hs : ofRows? rows = .ok s) {n : ℕ} (hn : 1 ≤ n) :
    ∃ t marks, ofRows? (rows.take n) = .ok t ∧ rule.marks? s.values = .ok marks ∧
      marks.length = s.length ∧ rule.marks? t.values = .ok (marks.take n) := by
  obtain ⟨marks, hmarks⟩ : ∃ marks, rule.marks? s.values = .ok marks :=
    ⟨_, if_neg (Nat.ne_zero_of_lt hlag)⟩
  obtain ⟨filtered, hjudges⟩ := (marks?_eq_ok_iff hlag).mp hmarks
  refine ⟨_, marks, ofRows?_take hs hn, hmarks, ?_, ?_⟩
  · rw [hjudges.length_marks, length_values]
  · have hvalues : values ⟨s.rows.take n, s.arity⟩ = s.values.take n := List.map_take
    rw [hvalues]
    exact (marks?_eq_ok_iff hlag).mpr ⟨_, hjudges.take n⟩

/-- Two outliers, one upwards and one downwards. -/
def outbursts : Series Float := ⟨[[1], [2], [1], [9], [1], [2], [-20], [1]], 1⟩

/-- A rule for them. -/
def halving : OutlierRule Float where
  lag := 3
  threshold := 2
  influence := 0.5

/-- The upward outlier is marked before the downward one is known. -/
theorem marks_of_outbursts :
    ofRows? outbursts.rows = .ok outbursts ∧
      (halving.marks? outbursts.values).toOption =
        some [.plain, .plain, .plain, .high, .plain, .plain, .low, .plain] ∧
      ∃ t marks, ofRows? (outbursts.rows.take 5) = .ok t ∧
        halving.marks? outbursts.values = .ok marks ∧ marks.length = outbursts.length ∧
        halving.marks? t.values = .ok (marks.take 5) :=
  ⟨rfl, by decide +kernel, marks_causal (by decide) rfl (by decide)⟩

end OutlierRule

end RideHud.Series
