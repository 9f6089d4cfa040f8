import RideHud.Proofs.Series.Filtered

/-!
# Outliers, found in place

The marks of a series can be found with a copy of it that is overwritten on the way: every marked
value is replaced by what the window takes for it, and the mean and the spread that the next value
is compared with are those of the last `lag` places of the copy (`Filtering.step`). The values behind
the current one are still in the copy, but the window does not reach them. In front of each place the
copy is the filtered series (`Filtering.At.step`), so in the end all of it is (`inPlace_eq`).
-/

namespace RideHud.Series.OutlierRule

open scoped Scalar

variable {α : Type} [Elementary α]

/-! ## The loop -/

/-- A series that is being filtered. -/
structure Filtering (α : Type) where
  /-- The copy that is overwritten. -/
  copy : List α
  marks : List Mark
  /-- The mean of the window. -/
  average : α
  /-- The spread of the window. -/
  deviation : α

/-- Nothing is overwritten or marked, and the first values fill the window. -/
def Filtering.start (rule : OutlierRule α) (values : List α) : Filtering α where
  copy := values
  marks := List.replicate values.length .plain
  average := mean (values.take rule.lag)
  deviation := spread (values.take rule.lag)

/-- Judge the value at `i`, and move the window on. -/
def Filtering.step (rule : OutlierRule α) (values : List α) (f : Filtering α) (i : ℕ) :
    Filtering α :=
  match values[i]?, f.copy[i - 1]? with
  | some y, some previous =>
    let outside := rule.threshold * f.deviation < Scalar.magnitude (y - f.average)
    let copy := if outside then
        f.copy.set i (rule.influence * y + (1 - rule.influence) * previous)
      else f.copy
    let marks := if outside then f.marks.set i (if f.average < y then .high else .low) else f.marks
    let window := rule.windowAt copy (i + 1)
    ⟨copy, marks, mean window, spread window⟩
  | _, _ => f

/-- Judge the values behind the first window, one after the other. -/
def inPlace (rule : OutlierRule α) (values : List α) : Filtering α :=
  (List.range' rule.lag (values.length - rule.lag)).foldl (Filtering.step rule values)
    (.start rule values)

/-! ## What the loop keeps -/

variable {rule : OutlierRule α} {values filtered : List α} {marks : List Mark} {f : Filtering α}
  {i : ℕ}

/-- In front of `i`, the copy is filtered and the marks are set; from there on they are as they were.
The window ends in front of `i`. -/
structure Filtering.At (rule : OutlierRule α) (values filtered : List α) (marks : List Mark) (i : ℕ)
    (f : Filtering α) : Prop where
  copy_eq : f.copy = filtered.take i ++ values.drop i
  marks_eq : f.marks = marks.take i ++ (List.replicate values.length .plain).drop i
  average_eq : f.average = mean (rule.windowAt filtered i)
  deviation_eq : f.deviation = spread (rule.windowAt filtered i)

/-- Where the first part of a list ends, an entry is overwritten. -/
theorem set_take_append_drop {β : Type} {xs ys : List β} {x : β} (hx : xs[i]? = some x)
    (hi : i < ys.length) : (xs.take i ++ ys.drop i).set i x = xs.take (i + 1) ++ ys.drop (i + 1) := by
  have hlen : (xs.take i).length = i := by
    rw [List.length_take, Nat.min_eq_left (Nat.le_of_lt (List.getElem?_eq_some_iff.mp hx).1)]
  rw [List.set_append, if_neg (by omega), hlen, Nat.sub_self, List.drop_eq_getElem_cons hi,
    List.set_cons_zero, List.take_add_one, hx, List.append_assoc]
  rfl

/-- Or it stays, if it is the next one anyway. -/
theorem take_append_drop_succ {β : Type} {xs ys : List β} {x : β} (hx : xs[i]? = some x)
    (hy : ys[i]? = some x) : xs.take i ++ ys.drop i = xs.take (i + 1) ++ ys.drop (i + 1) := by
  obtain ⟨hi, rfl⟩ := List.getElem?_eq_some_iff.mp hy
  rw [List.drop_eq_getElem_cons hi, List.take_add_one, hx, List.append_assoc]
  rfl

omit [Elementary α] in
/-- The window that is looked at next lies in the part of the copy that is filtered. -/
theorem windowAt_take_append (hle : rule.lag ≤ i) (hi : i ≤ filtered.length) (rest : List α) :
    rule.windowAt (filtered.take i ++ rest) i = rule.windowAt filtered i := by
  refine windowAt_congr hle fun j hj => ?_
  rw [List.getElem?_append_left (by rw [List.length_take]; omega), List.getElem?_take_of_lt hj]

namespace Filtering.At

/-- At the start, nothing is done but to fill the window. -/
theorem start (h : rule.Judges values filtered marks) :
    (Filtering.start rule values).At rule values filtered marks rule.lag := by
  have hcopy : filtered.take rule.lag = values.take rule.lag := by
    refine List.ext_getElem? fun j => ?_
    rw [List.getElem?_take, List.getElem?_take]
    split
    · next hj => exact (h.fill j hj).1
    · rfl
  have hmarks : marks.take rule.lag = (List.replicate values.length .plain).take rule.lag := by
    refine List.ext_getElem? fun j => ?_
    rw [List.getElem?_take, List.getElem?_take]
    split
    · next hj => rw [(h.fill j hj).2, ← List.map_const', List.getElem?_map]
    · rfl
  have hwindow : rule.windowAt filtered rule.lag = values.take rule.lag := by
    rw [windowAt, Nat.sub_self, List.drop_zero, hcopy]
  constructor
  case copy_eq => rw [hcopy, List.take_append_drop]; rfl
  case marks_eq => rw [hmarks, List.take_append_drop]; rfl
  case average_eq => rw [hwindow]; rfl
  case deviation_eq => rw [hwindow]; rfl

/-- **One value more is judged.** -/
theorem step (hf : f.At rule values filtered marks i) (h : rule.Judges values filtered marks)
    (hlag : 1 ≤ rule.lag) (hle : rule.lag ≤ i) (hi : i < values.length) :
    (f.step rule values i).At rule values filtered marks (i + 1) := by
  have hlt : i < filtered.length := h.length_filtered ▸ hi
  have hy := List.getElem?_eq_getElem hi
  have hprevious := List.getElem?_eq_getElem (Nat.lt_of_le_of_lt (Nat.sub_le i 1) hlt)
  have hmark := h.judge i _ hle hy
  have hmix := h.mix i _ _ _ hle hy hprevious hmark
  have hplain : (List.replicate values.length Mark.plain)[i]? = some .plain :=
    List.getElem?_replicate_of_lt hi
  -- The value before the current one has its final value in the copy.
  have hbefore : f.copy[i - 1]? = filtered[i - 1]? := by
    rw [hf.copy_eq, List.getElem?_append_left (by rw [List.length_take]; omega),
      List.getElem?_take_of_lt (by omega)]
  have hnext : ∀ {copy : List α} {marked : List Mark},
      copy = filtered.take (i + 1) ++ values.drop (i + 1) →
      marked = marks.take (i + 1) ++ (List.replicate values.length .plain).drop (i + 1) →
      Filtering.At rule values filtered marks (i + 1)
        ⟨copy, marked, mean (rule.windowAt copy (i + 1)), spread (rule.windowAt copy (i + 1))⟩ := by
    rintro _ _ rfl rfl
    have hwindow := windowAt_take_append (Nat.le_succ_of_le hle) hlt (values.drop (i + 1))
    exact ⟨rfl, rfl, congrArg mean hwindow, congrArg spread hwindow⟩
  rw [Filtering.step, hy, hbefore, hprevious]
  dsimp only
  rw [judge, ← hf.average_eq, ← hf.deviation_eq] at hmark hmix
  by_cases houtside : rule.threshold * f.deviation < Scalar.magnitude (values[i] - f.average)
  · rw [if_pos houtside] at hmark hmix
    rw [if_pos houtside, if_pos houtside]
    refine hnext ?_ ?_
    · rw [hf.copy_eq]
      refine set_take_append_drop (hmix.trans ?_) hi
      split <;> rfl
    · rw [hf.marks_eq]
      exact set_take_append_drop hmark (by rwa [List.length_replicate])
  · rw [if_neg houtside] at hmark hmix
    rw [if_neg houtside, if_neg houtside]
    refine hnext ?_ ?_
    · rw [hf.copy_eq]
      exact take_append_drop_succ hmix hy
    · rw [hf.marks_eq]
      exact take_append_drop_succ hmark hplain

/-- At the end of the series, all of it is filtered and all marks are set. -/
theorem eq_of_length_le (hf : f.At rule values filtered marks i)
    (h : rule.Judges values filtered marks) (hend : values.length ≤ i) :
    f.copy = filtered ∧ f.marks = marks := by
  constructor
  · rw [hf.copy_eq, List.take_of_length_le (h.length_filtered ▸ hend),
      List.drop_eq_nil_of_le hend, List.append_nil]
  · have hplain : (List.replicate values.length Mark.plain).length ≤ i := by
      rwa [List.length_replicate]
    rw [hf.marks_eq, List.take_of_length_le (h.length_marks ▸ hend),
      List.drop_eq_nil_of_le hplain, List.append_nil]

end Filtering.At

/-- **Any number of values is judged**, as many as there are. -/
theorem at_foldl_step (h : rule.Judges values filtered marks) (hlag : 1 ≤ rule.lag) {k : ℕ}
    (hk : k ≤ values.length - rule.lag) :
    ((List.range' rule.lag k).foldl (Filtering.step rule values) (.start rule values)).At rule values
      filtered marks (rule.lag + k) := by
  induction k with
  | zero => exact .start h
  | succ k ih =>
      rw [List.range'_1_concat, List.foldl_append, ← Nat.add_assoc]
      exact (ih (by omega)).step h hlag (Nat.le_add_right _ _) (by omega)

/-! ## The filtered series -/

/-- **The loop fills the filtered series and sets the marks of the rule.** -/
theorem inPlace_eq (hlag : 1 ≤ rule.lag) (values : List α) :
    (rule.inPlace values).copy = rule.filteredSeries values ∧
      rule.marks? values = .ok (rule.inPlace values).marks := by
  have hjudges := rule.judges_filteredSeries hlag values
  obtain ⟨hcopy, hmarks⟩ := (at_foldl_step hjudges hlag (Nat.le_refl _)).eq_of_length_le hjudges
    (by omega)
  refine ⟨hcopy, (marks?_eq_ok_iff hlag).mpr ⟨rule.filteredSeries values, ?_⟩⟩
  rw [inPlace, hmarks]
  exact hjudges

end RideHud.Series.OutlierRule
