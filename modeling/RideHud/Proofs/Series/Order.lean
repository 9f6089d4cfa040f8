import Mathlib.Data.Nat.Notation
import RideHud.Series
import RideHud.Series.Peaks

/-!
# Extremes see only the order

The scalogram compares values and does nothing else with them (`isExtreme_iff`), and its noise is
the same for peaks and troughs. So two series of one length have the same extremes if their values
are ordered alike, and the peaks of the one are the troughs of the other if they are ordered in
reverse (`extremes_of_order`).
-/

namespace RideHud.Series

variable {α : Type} [Scalar α]

/-! ## Neighbours -/

/-- A value is extreme at a distance if it has neighbours there on both sides and beats them. -/
theorem isExtreme_iff (kind : Extremum) (values : List α) (k i : ℕ) :
    isExtreme kind values.toArray k i = true ↔ ∃ (_ : k ≤ i) (_ : i + k < values.length),
      kind.beats values[i] values[i - k] = true ∧ kind.beats values[i] values[i + k] = true := by
  unfold isExtreme
  simp only [List.getElem?_toArray]
  by_cases hk : k ≤ i
  · by_cases hi : i + k < values.length
    · rw [List.getElem?_eq_getElem (by omega : i - k < values.length),
        List.getElem?_eq_getElem (by omega : i < values.length), List.getElem?_eq_getElem hi]
      simp [hk, hi]
    · rw [List.getElem?_eq_none (Nat.not_lt.mp hi)]
      simp [hi]
  · refine iff_of_false ?_ fun h => hk h.1
    rw [decide_eq_false hk]
    split <;> exact Bool.false_ne_true

/-! ## Order -/

/-- The values of two lists are ordered alike, as a kind of extremum sees the first list and another
kind the second one. -/
def Alike (kind kind' : Extremum) (us vs : List α) : Prop :=
  ∀ p ∈ us.zip vs, ∀ q ∈ us.zip vs, kind.beats p.1 q.1 = kind'.beats p.2 q.2

/-- The values of two lists are ordered alike. -/
def SameOrder (us vs : List α) : Prop :=
  ∀ p ∈ us.zip vs, ∀ q ∈ us.zip vs, p.1 < q.1 ↔ p.2 < q.2

instance (us vs : List α) : Decidable (SameOrder us vs) :=
  inferInstanceAs (Decidable (∀ p ∈ us.zip vs, ∀ q ∈ us.zip vs, p.1 < q.1 ↔ p.2 < q.2))

/-- The values of two lists are ordered in reverse. -/
def ReverseOrder (us vs : List α) : Prop :=
  ∀ p ∈ us.zip vs, ∀ q ∈ us.zip vs, p.1 < q.1 ↔ q.2 < p.2

instance (us vs : List α) : Decidable (ReverseOrder us vs) :=
  inferInstanceAs (Decidable (∀ p ∈ us.zip vs, ∀ q ∈ us.zip vs, p.1 < q.1 ↔ q.2 < p.2))

variable {kind kind' : Extremum} {us vs : List α}

theorem SameOrder.alike (h : SameOrder us vs) (kind : Extremum) : Alike kind kind us vs := by
  intro p hp q hq
  cases kind with
  | peak => exact decide_eq_decide.mpr (h q hq p hp)
  | trough => exact decide_eq_decide.mpr (h p hp q hq)

theorem ReverseOrder.alike (h : ReverseOrder us vs) (kind : Extremum) :
    Alike kind kind.opposite us vs := by
  intro p hp q hq
  cases kind with
  | peak => exact decide_eq_decide.mpr (h q hq p hp)
  | trough => exact decide_eq_decide.mpr (h p hp q hq)

/-- The values at two places beat each other in one list as they do in the other. -/
theorem Alike.beats_eq (h : Alike kind kind' us vs) {i j : ℕ} (hi : i < us.length)
    (hj : j < us.length) (hi' : i < vs.length) (hj' : j < vs.length) :
    kind.beats us[i] us[j] = kind'.beats vs[i] vs[j] := by
  have hmem : ∀ k (hk : k < us.length) (hk' : k < vs.length), (us[k], vs[k]) ∈ us.zip vs := by
    intro k hk hk'
    have hlt : k < (us.zip vs).length := List.length_zip ▸ Nat.lt_min.mpr ⟨hk, hk'⟩
    exact List.getElem_zip (h := hlt) ▸ List.getElem_mem hlt
  exact h _ (hmem i hi hi') _ (hmem j hj hj')

/-- Values are extreme in one list as they are in the other. -/
theorem Alike.isExtreme_eq (h : Alike kind kind' us vs) (hlen : us.length = vs.length) (k i : ℕ) :
    isExtreme kind us.toArray k i = isExtreme kind' vs.toArray k i := by
  rw [Bool.eq_iff_iff, isExtreme_iff, isExtreme_iff]
  constructor
  · rintro ⟨hk, hi, hleft, hright⟩
    refine ⟨hk, hlen ▸ hi, ?_, ?_⟩
    · exact (h.beats_eq _ _ _ _).symm.trans hleft
    · exact (h.beats_eq _ _ _ _).symm.trans hright
  · rintro ⟨hk, hi, hleft, hright⟩
    refine ⟨hk, hlen ▸ hi, ?_, ?_⟩
    · exact (h.beats_eq _ _ _ _).trans hleft
    · exact (h.beats_eq _ _ _ _).trans hright

/-! ## Scalograms -/

namespace Scalogram

/-- Where there is room, the scalogram has the noise that belongs to its size. -/
theorem of?_eq_map {α : Type} (kind : Extremum) (values : Array α) :
    of? kind values = (Workspace.reserve (height values.size * values.size) cellBytes).map
      fun _ => ⟨kind, values, Noise.draws (height values.size * values.size)⟩ := by
  unfold of?
  dsimp only
  cases Workspace.reserve (height values.size * values.size) cellBytes <;> rfl

/-- A scalogram is of the kind and of the values that it was asked for. -/
theorem eq_of_of? {α : Type} {kind : Extremum} {values : Array α} {s : Scalogram α}
    (h : of? kind values = .ok s) : s.kind = kind ∧ s.values = values := by
  rw [of?_eq_map] at h
  cases hroom : Workspace.reserve (height values.size * values.size) cellBytes with
  | error shortage => rw [hroom] at h; cases h
  | ok room =>
      rw [hroom] at h
      obtain rfl := Except.ok.inj h
      exact ⟨rfl, rfl⟩

variable {s t : Scalogram α}

/-- The entries of two scalograms are the same if the same values are extreme. -/
theorem cell_congr (hnoise : s.noise = t.noise) (hsize : s.values.size = t.values.size)
    (h : ∀ k i, isExtreme s.kind s.values k i = isExtreme t.kind t.values k i) :
    s.cell = t.cell := by
  funext row i
  rw [cell, cell, h, hnoise, hsize]

/-- Two scalograms of the same entries mark the same values, each with the mark of its kind. -/
theorem marks_eq_map (hsize : s.values.size = t.values.size) (hcell : s.cell = t.cell)
    {f : Mark → Mark} (hplain : f .plain = .plain) (hmark : f s.kind.mark = t.kind.mark) :
    t.marks = s.marks.map f := by
  have hrow : s.rowSum = t.rowSum := by
    funext row
    rw [rowSum, rowSum, hcell, hsize]
  have hscale : s.scale = t.scale := by rw [scale, scale, hrow, hsize]
  have hcolumn : s.column = t.column := by
    funext scale i
    rw [column, column, hcell]
  rw [marks, marks, List.map_map, hsize, hscale, hcolumn]
  refine List.map_congr_left fun i _ => ?_
  rw [Function.comp_apply, apply_ite f, hplain, hmark]

end Scalogram

/-- Lists that are ordered alike have the same extremes, each with the mark of its kind. -/
theorem Alike.extremes_eq (h : Alike kind kind' us vs) (hlen : us.length = vs.length)
    {f : Mark → Mark} (hplain : f .plain = .plain) (hmark : f kind.mark = kind'.mark) :
    extremes kind' vs = (extremes kind us).map (List.map f) := by
  unfold extremes
  simp only [List.size_toArray, ← hlen]
  split
  · exact congrArg Except.ok (by rw [List.map_replicate, hplain])
  · rw [Scalogram.of?_eq_map, Scalogram.of?_eq_map]
    simp only [List.size_toArray, ← hlen]
    cases Workspace.reserve (Scalogram.height us.length * us.length) Scalogram.cellBytes with
    | error shortage => rfl
    | ok room =>
        have hcell := Scalogram.cell_congr
          (s := ⟨kind, us.toArray, Noise.draws (Scalogram.height us.length * us.length)⟩)
          (t := ⟨kind', vs.toArray, _⟩) rfl hlen (h.isExtreme_eq hlen)
        exact congrArg Except.ok (Scalogram.marks_eq_map hlen hcell hplain hmark)

/-- **Extremes see only the order.** Two series of one length have the same peaks and the same
troughs if their values are ordered alike. If they are ordered in reverse, the peaks of the one are
the troughs of the other, each mark turned round; so the troughs of a series are the peaks of any
series that mirrors it. -/
theorem extremes_of_order {α : Type} [Elementary α] {s t : Series α} (hlen : s.length = t.length) :
    (SameOrder s.values t.values → ∀ kind, extremes kind t.values = extremes kind s.values) ∧
      (ReverseOrder s.values t.values → ∀ kind,
        extremes kind.opposite t.values = (extremes kind s.values).map (List.map Mark.flip)) := by
  have hvalues : s.values.length = t.values.length := by
    rw [length_values, length_values, hlen]
  constructor
  · intro h kind
    rw [(h.alike kind).extremes_eq (f := id) hvalues rfl rfl, List.map_id_fun]
    rw [Except.map_id]
    rfl
  · intro h kind
    exact (h.alike kind).extremes_eq hvalues rfl kind.mark_opposite.symm

/-- A series with two crests. -/
def swell : Series Float := ⟨[[0], [3], [9], [4], [1], [5], [8], [2], [1]], 1⟩

/-- A series of pairs of numbers that rises and falls with it, but neither evenly nor without
overflow. -/
def surge : Series Float :=
  ⟨[[0, 0], [3, 4], [1e200, 1], [8, 6], [0, -1], [5, 12], [9, 12], [-2, 0], [1, 0]], 2⟩

/-- A series that falls where it rises. -/
def ebb : Series Float := ⟨[[0], [-3], [-9], [-4], [-1], [-5], [-8], [-2], [-1]], 1⟩

/-- The crests are in the same places, and they are the troughs of the series in reverse order. -/
theorem extremes_of_swell :
    swell.length = surge.length ∧ SameOrder swell.values surge.values ∧
      extremes .peak surge.values = extremes .peak swell.values ∧
      swell.length = ebb.length ∧ ReverseOrder swell.values ebb.values ∧
      extremes .trough ebb.values = (extremes .peak swell.values).map (List.map Mark.flip) ∧
      (extremes .peak swell.values).toOption.map Mark.places = some [(2, .high), (6, .high)] := by
  have hsurge : swell.length = surge.length := by decide +kernel
  have hsame : SameOrder swell.values surge.values := by decide +kernel
  have hebb : swell.length = ebb.length := by decide +kernel
  have hreverse : ReverseOrder swell.values ebb.values := by decide +kernel
  exact ⟨hsurge, hsame, (extremes_of_order hsurge).1 hsame .peak, hebb, hreverse,
    (extremes_of_order hebb).2 hreverse .peak, by decide +kernel⟩

end RideHud.Series
