import Mathlib.Data.List.MinMax
import Mathlib.Tactic.Abel
import Mathlib.Tactic.GCongr
import Mathlib.Tactic.NormNum
import RideHud.Proofs.Exact
import RideHud.Proofs.Series.Landmarks
import RideHud.Proofs.Series.Order

/-!
# Extremes stand out at every scale

A value is marked if its column does not vary down to the scale of the series. A column of zeros
does not vary, and a column with zeros and with noise varies by two over its length at least
(`two_le_length_mul_deviation`). So, unless noise happens not to vary, exactly those values are
marked that beat their neighbours at every distance up to the scale (`extremes_iff_standsOut`), and
no two of them are as near to each other as the scale.
-/

namespace RideHud.Series

open scoped RideHud.Exact

variable {K : Type} [DivisionRing K] [LinearOrder K]

/-! ## Standing out -/

/-- The value at `i` has neighbours on both sides at every distance up to `l`, and it beats all of
them. -/
def StandsOut (kind : Extremum) (values : List K) (l i : ℕ) : Prop :=
  ∃ (_ : l ≤ i) (_ : i + l < values.length), ∀ k (_ : k ≤ l), 1 ≤ k →
    kind.beats values[i] values[i - k] = true ∧ kind.beats values[i] values[i + k] = true

variable {kind : Extremum} {values : List K} {l i j : ℕ}

theorem standsOut_iff (hl : 1 ≤ l) : StandsOut kind values l i ↔
    ∀ k ≤ l, 1 ≤ k → isExtreme kind values.toArray k i = true := by
  constructor
  · rintro ⟨hle, hlt, hbeats⟩ k hk' hk
    exact (isExtreme_iff kind values k i).mpr ⟨by omega, by omega, hbeats k hk' hk⟩
  · intro h
    obtain ⟨hle, hlt, _⟩ := (isExtreme_iff kind values l i).mp (h l (Nat.le_refl l) hl)
    refine ⟨hle, hlt, fun k hk' hk => ?_⟩
    obtain ⟨_, _, hbeats⟩ := (isExtreme_iff kind values k i).mp (h k hk' hk)
    exact hbeats

/-- Values that stand out are more than the scale apart: of two nearer ones, each would have to beat
the other. -/
theorem StandsOut.add_lt [IsStrictOrderedRing K] (hi : StandsOut kind values l i)
    (hj : StandsOut kind values l j) (hlt : i < j) : i + l < j := by
  by_contra hnear
  obtain ⟨_, _, hi⟩ := hi
  obtain ⟨_, _, hj⟩ := hj
  have hright := (hi (j - i) (by omega) (by omega)).2
  have hleft := (hj (j - i) (by omega) (by omega)).1
  simp only [Nat.add_sub_cancel' hlt.le, Nat.sub_sub_self hlt.le, Extremum.beats_iff]
    at hright hleft
  exact hright.not_gt hleft

/-! ## How much a column varies -/

section

/-- How far the entries of a column lie from a number, all together. -/
def distance (column : List K) (m : K) : K := (column.map fun c => |c - m|).sum

/-- The distances of the entries from their mean, added up and divided by the number of entries less
one. -/
def deviation (column : List K) : K :=
  distance column (column.sum / column.length) / (column.length - 1)

variable [IsStrictOrderedRing K]

theorem distance_nonneg (column : List K) (m : K) : 0 ≤ distance column m :=
  List.sum_nonneg fun d hd => by
    obtain ⟨c, _, rfl⟩ := List.mem_map.mp hd
    exact abs_nonneg _

theorem deviation_nonneg {column : List K} (h : 1 ≤ column.length) : 0 ≤ deviation column :=
  div_nonneg (distance_nonneg _ _) (sub_nonneg.mpr (Nat.one_le_cast.mpr h))

/-- A column of zeros does not vary. -/
theorem deviation_eq_zero {column : List K} (h : ∀ c ∈ column, c = 0) : deviation column = 0 := by
  have hsum : column.sum = 0 := List.sum_eq_zero h
  have hdistance : distance column 0 = 0 := List.sum_eq_zero fun d hd => by
    obtain ⟨c, hc, rfl⟩ := List.mem_map.mp hd
    rw [h c hc, sub_zero, abs_zero]
  rw [deviation, hsum, zero_div, hdistance, zero_div]

/-- Zeros lie as far from a number as it is large, and the other entries at least as far as they
exceed it. -/
theorem le_distance (column : List K) {m : K} (hm : 0 ≤ m) :
    column.countP (· = 0) • m + column.sum ≤ distance column m + column.countP (· ≠ 0) • m := by
  induction column with
  | nil => simp [distance]
  | cons c column ih =>
      have hcons : distance (c :: column) m = |c - m| + distance column m := List.sum_cons
      rw [hcons, List.sum_cons]
      by_cases hc : c = 0
      · rw [List.countP_cons_of_pos (by simp [hc]), List.countP_cons_of_neg (by simp [hc]), hc,
          zero_sub, abs_neg, abs_of_nonneg hm, succ_nsmul]
        calc column.countP (· = 0) • m + m + (0 + column.sum)
            = m + (column.countP (· = 0) • m + column.sum) := by abel
          _ ≤ m + (distance column m + column.countP (· ≠ 0) • m) := by gcongr
          _ = m + distance column m + column.countP (· ≠ 0) • m := by abel
      · rw [List.countP_cons_of_neg (by simp [hc]), List.countP_cons_of_pos (by simp [hc]),
          succ_nsmul]
        calc column.countP (· = 0) • m + (c + column.sum)
            = c - m + m + (column.countP (· = 0) • m + column.sum) := by abel
          _ ≤ |c - m| + m + (distance column m + column.countP (· ≠ 0) • m) := by
              gcongr
              exact le_abs_self _
          _ = |c - m| + distance column m + (column.countP (· ≠ 0) • m + m) := by abel

/-- Entries of one and more add up to their number at least. -/
theorem countP_le_sum {column : List K} (h : ∀ c ∈ column, c = 0 ∨ 1 ≤ c) :
    (column.countP (· ≠ 0) : K) ≤ column.sum := by
  induction column with
  | nil => simp
  | cons c column ih =>
      have htail := ih fun d hd => h d (List.mem_cons_of_mem c hd)
      rw [List.sum_cons]
      rcases h c List.mem_cons_self with rfl | hone
      · rwa [List.countP_cons_of_neg (by simp), zero_add]
      · rw [List.countP_cons_of_pos (by simpa using (zero_lt_one.trans_le hone).ne'),
          Nat.cast_succ, add_comm]
        exact add_le_add hone htail

/-- **A column with zeros and with noise varies.** Its deviation is two over its length at least. -/
theorem two_le_length_mul_deviation {column : List K} (hzero : 0 ∈ column)
    (hnoise : ∃ c ∈ column, c ≠ 0) (h : ∀ c ∈ column, c = 0 ∨ 1 ≤ c) :
    2 ≤ column.length * deviation column := by
  obtain ⟨z, hz⟩ : ∃ z, z = column.countP (· = 0) := ⟨_, rfl⟩
  obtain ⟨p, hp⟩ : ∃ p, p = column.countP (· ≠ 0) := ⟨_, rfl⟩
  obtain ⟨m, hm⟩ : ∃ m, m = column.sum / column.length := ⟨_, rfl⟩
  have hlen : column.length = z + p := by
    rw [hz, hp, List.length_eq_countP_add_countP (· = 0)]
    simp
  have hzpos : 0 < z := hz ▸ List.countP_pos_iff.mpr ⟨0, hzero, by simp⟩
  have hppos : 0 < p := hp ▸ List.countP_pos_iff.mpr (by simpa using hnoise)
  have hlenpos : (0 : K) < column.length := Nat.cast_pos.mpr (by omega)
  have hsum : (p : K) ≤ column.sum := hp ▸ countP_le_sum h
  have hmean : column.length * m = column.sum := by
    rw [hm, ← mul_div_assoc, (Nat.cast_commute column.length column.sum).eq,
      mul_div_cancel_right₀ _ hlenpos.ne']
  -- What the zeros lie below the mean, the others lie above it.
  have htwice : (2 * z) • m ≤ distance column m := by
    have hle := le_distance column (hm ▸ div_nonneg ((Nat.cast_nonneg p).trans hsum) hlenpos.le)
    rw [← hz, ← hp, ← hmean, hlen, ← nsmul_eq_mul, add_nsmul, ← add_assoc] at hle
    rw [two_mul, add_nsmul]
    exact le_of_add_le_add_right hle
  have hnat : 2 * (column.length - 1) ≤ 2 * z * p := by
    obtain ⟨a, rfl⟩ := Nat.exists_eq_add_of_le' hzpos
    obtain ⟨b, rfl⟩ := Nat.exists_eq_add_of_le' hppos
    rw [hlen]
    ring_nf
    omega
  have hpred : (column.length : K) - 1 = ((column.length - 1 : ℕ) : K) :=
    (Nat.cast_pred (by omega)).symm
  rw [deviation, ← hm, hpred, ← mul_div_assoc, le_div_iff₀ (Nat.cast_pos.mpr (by omega))]
  calc (2 : K) * ((column.length - 1 : ℕ) : K) = ((2 * (column.length - 1) : ℕ) : K) := by
        rw [Nat.cast_mul, Nat.cast_ofNat]
    _ ≤ ((2 * z * p : ℕ) : K) := Nat.cast_le.mpr hnat
    _ = (2 * z) • (p : K) := by rw [nsmul_eq_mul, Nat.cast_mul]
    _ ≤ (2 * z) • column.sum := nsmul_le_nsmul_right hsum _
    _ = column.length * ((2 * z) • m) := by rw [mul_smul_comm, hmean]
    _ ≤ column.length * distance column m := by gcongr

/-- The deviation of a column with zeros and with noise is not negligible, as long as it has less
than a trillion entries. -/
theorem lt_deviation {column : List K} (hzero : 0 ∈ column) (hnoise : ∃ c ∈ column, c ≠ 0)
    (h : ∀ c ∈ column, c = 0 ∨ 1 ≤ c) (hlen : column.length < 10 ^ 12) :
    1e-12 < deviation column := by
  by_contra hle
  have hlen' : (column.length : K) ≤ 10 ^ 12 := by exact_mod_cast hlen.le
  have hnonneg : 0 ≤ deviation column := deviation_nonneg (List.length_pos_of_mem hzero)
  have hone : (2 : K) ≤ 1 := calc
    (2 : K) ≤ column.length * deviation column := two_le_length_mul_deviation hzero hnoise h
    _ ≤ 10 ^ 12 * 1e-12 := mul_le_mul hlen' (not_lt.mp hle) hnonneg (by positivity)
    _ = 1 := by norm_num
  exact hone.not_gt one_lt_two

end

/-! ## The scale -/

namespace Scalogram

variable {s : Scalogram K} {row : ℕ}

/-- A walk that keeps the least sum ends with the first least one. -/
theorem foldl_keepLeast (f : ℕ → K) (rows : List ℕ) :
    rows.foldl (fun best row => keepLeast best (f row) row) none
      = (rows.argmin f).map fun row => (row, f row) := by
  induction rows using List.reverseRecOn with
  | nil => rfl
  | append_singleton rows row ih =>
      rw [List.foldl_concat, ih, List.argmin_concat]
      cases rows.argmin f with
      | none => rfl
      | some best =>
          simp only [Option.map_some, keepLeast]
          split <;> rfl

/-- The scale is that of the first row with the least sum. -/
theorem scale_eq (h : (List.range (height s.values.size)).argmin s.rowSum = some row) :
    s.scale = row + 1 := by
  rw [scale, foldl_keepLeast, h]
  rfl

/-- The values are marked whose columns do not vary down to the scale. -/
theorem getElem?_marks (s : Scalogram K) (i : ℕ) :
    s.marks[i]? = if i < s.values.size then
      some (if isConstant (s.column s.scale i) then s.kind.mark else .plain) else none := by
  rw [marks, List.getElem?_map]
  split
  · next hi => rw [List.getElem?_range hi, Option.map_some]
  · next hi => rw [List.getElem?_eq_none (by simpa using hi), Option.map_none]

/-! ## Entries -/

/-- The entry of an extreme value is zero. -/
theorem cell_of_isExtreme (h : isExtreme s.kind s.values (row + 1) i = true) :
    s.cell row i = 0 := by
  rw [cell, if_pos h, Exact.zero_eq]

theorem length_column (s : Scalogram K) (l i : ℕ) : (s.column l i).length = l := by
  rw [column, List.length_map, List.length_range]

variable [IsStrictOrderedRing K]

/-- Noise is one at least. -/
theorem one_le_ofDraw (draw : UInt32) : (1 : K) ≤ ofDraw draw := by
  have hnonneg : (0 : K) ≤ draw.toNat * (Nat.cast 1 / Nat.cast 4294967296) := by positivity
  calc (1 : K) ≤ draw.toNat * (Nat.cast 1 / Nat.cast 4294967296) + 1 :=
        le_add_of_nonneg_left hnonneg
    _ = draw.toNat * (Nat.cast 1 / Nat.cast 4294967296) + Nat.cast 1 := by rw [Nat.cast_one]

/-- The entry of any other value is noise. -/
theorem one_le_cell (h : isExtreme s.kind s.values (row + 1) i = false) : 1 ≤ s.cell row i := by
  rw [cell, if_neg (Bool.eq_false_iff.mp h)]
  exact one_le_ofDraw _

/-- A column does not vary if it has two entries at least and its deviation is negligible. -/
theorem isConstant_iff (column : List K) :
    isConstant column = true ↔ 2 ≤ column.length ∧ deviation column ≤ 1e-12 := by
  unfold isConstant
  rw [Bool.and_eq_true, decide_eq_true_iff]
  refine and_congr_right fun hlen => ?_
  have hpos : 1 ≤ column.length := Nat.le_of_succ_le hlen
  have hdeviation : Nat.cast 1 / ((column.length : K) - Nat.cast 1) *
      distance column (column.sum / column.length) = deviation column := by
    have hcomm : Commute ((column.length - 1 : ℕ) : K)
        (distance column (column.sum / column.length)) := Nat.cast_commute _ _
    rw [deviation, Nat.cast_one, ← Nat.cast_pred hpos, one_div, hcomm.inv_left₀.eq]
    exact (div_eq_mul_inv _ _).symm
  have habs : |deviation column| = deviation column := abs_of_nonneg (deviation_nonneg hpos)
  simp only [Exact.total_eq_sum, Exact.magnitude_eq_abs]
  rw [Exact.negligible_iff]
  change |Nat.cast 1 / ((column.length : K) - Nat.cast 1) *
    distance column (column.sum / column.length)| ≤ 1e-12 ↔ _
  rw [hdeviation, habs]

/-- **A column does not vary if all its values are extreme.** Otherwise it varies, unless it has
noise only and the noise happens not to vary. -/
theorem isConstant_column_iff (htwo : 2 ≤ l) (hl : l < 10 ^ 12)
    (hnoise : (∀ k ≤ l, 1 ≤ k → isExtreme s.kind s.values k i = false) →
      1e-12 < deviation (s.column l i)) :
    isConstant (s.column l i) = true ↔
      ∀ k ≤ l, 1 ≤ k → isExtreme s.kind s.values k i = true := by
  have hcell : ∀ c ∈ s.column l i, c = 0 ∨ 1 ≤ c := by
    intro c hc
    obtain ⟨row, _, rfl⟩ := List.mem_map.mp hc
    cases hrow : isExtreme s.kind s.values (row + 1) i with
    | true => exact .inl (cell_of_isExtreme hrow)
    | false => exact .inr (one_le_cell hrow)
  have hmem : ∀ k, 1 ≤ k → k ≤ l → s.cell (k - 1) i ∈ s.column l i := fun k hk hk' =>
    List.mem_map.mpr ⟨k - 1, List.mem_range.mpr (by omega), rfl⟩
  rw [isConstant_iff, length_column]
  constructor
  · rintro ⟨-, hle⟩ k hk' hk
    by_contra hnot
    refine hle.not_gt ?_
    by_cases hzero : 0 ∈ s.column l i
    · have hone : 1 ≤ s.cell (k - 1) i := by
        refine one_le_cell ?_
        rw [Nat.sub_add_cancel hk]
        exact Bool.eq_false_iff.mpr hnot
      exact lt_deviation hzero ⟨_, hmem k hk hk', (zero_lt_one.trans_le hone).ne'⟩ hcell
        (by rwa [length_column])
    · refine hnoise fun k' hk' hk => Bool.eq_false_iff.mpr fun hextreme => hzero ?_
      rw [← Nat.sub_add_cancel hk] at hextreme
      exact cell_of_isExtreme hextreme ▸ hmem k' hk hk'
  · intro hall
    refine ⟨htwo, ?_⟩
    rw [deviation_eq_zero fun c hc => ?_]
    · positivity
    · obtain ⟨row, hrow, rfl⟩ := List.mem_map.mp hc
      exact cell_of_isExtreme (hall (row + 1) (List.mem_range.mp hrow) (Nat.le_add_left 1 row))

end Scalogram

/-- **Extremes stand out at every scale.** Let `l` be the first distance whose row has the least
sum. If it is two at least, and no column with noise only happens not to vary down to it, then
exactly those values are marked that stand out up to `l`, and any two of them are more than `l`
apart. -/
theorem extremes_iff_standsOut [IsStrictOrderedRing K] {s : Scalogram K}
    (hlen : values.length < 10 ^ 12) (hs : Scalogram.of? kind values.toArray = .ok s)
    (hl : (List.range (Scalogram.height values.length)).argmin s.rowSum = some (l - 1))
    (htwo : 2 ≤ l)
    (hnoise : ∀ i < values.length,
      (∀ k ≤ l, 1 ≤ k → isExtreme kind values.toArray k i = false) →
        1e-12 < deviation (s.column l i)) :
    ∃ marks, extremes kind values = .ok marks ∧ marks.length = values.length ∧
      (∀ m ∈ marks, m = kind.mark ∨ m = .plain) ∧
      (∀ i, marks[i]? = some kind.mark ↔ StandsOut kind values l i) ∧
      ∀ i j, marks[i]? = some kind.mark → marks[j]? = some kind.mark → i < j → i + l < j := by
  have hrow : l - 1 < Scalogram.height values.length := List.mem_range.mp (List.argmin_mem hl)
  have hmarks : extremes kind values = .ok s.marks := by
    unfold extremes
    dsimp only
    rw [List.size_toArray, if_neg (Nat.ne_zero_of_lt hrow), hs]
    rfl
  obtain ⟨rfl, hvalues⟩ := Scalogram.eq_of_of? hs
  have hsize : s.values.size = values.length := by rw [hvalues, List.size_toArray]
  have hscale : s.scale = l := by
    rw [Scalogram.scale_eq (hsize ▸ hl), Nat.sub_add_cancel (Nat.le_of_succ_le htwo)]
  have hl' : l < 10 ^ 12 := by
    rw [Scalogram.height] at hrow
    omega
  have hflag : ∀ i, s.marks[i]? = some s.kind.mark ↔ StandsOut s.kind values l i := by
    intro i
    rw [Scalogram.getElem?_marks, hsize, hscale]
    split
    · next hi =>
        rw [standsOut_iff (Nat.le_of_succ_le htwo), ← hvalues, ← Scalogram.isConstant_column_iff
          htwo hl' (by rw [hvalues]; exact hnoise i hi), Option.some_inj, ite_eq_left_iff]
        exact ⟨fun h => by_contra fun hn => s.kind.mark_ne_plain (h hn).symm,
          fun h hn => absurd h hn⟩
    · next hi => exact iff_of_false nofun fun ⟨_, hlt, _⟩ => hi (Nat.lt_of_add_right_lt hlt)
  refine ⟨s.marks, hmarks, ?_, ?_, hflag, fun i j hi hj => ?_⟩
  · rw [Scalogram.marks, List.length_map, List.length_range, hsize]
  · intro m hm
    obtain ⟨i, _, rfl⟩ := List.mem_map.mp hm
    split
    · exact .inl rfl
    · exact .inr rfl
  · exact ((hflag i).mp hi).add_lt ((hflag j).mp hj)

/-- A series with two crests. -/
def crests : List ℚ := [0, 3, 9, 4, 1, 5, 8, 2, 1]

/-- Its scalogram. -/
def crestsScalogram : Scalogram ℚ := ⟨.peak, crests.toArray, Noise.draws 36⟩

/-- Its scale is two, and both crests stand out. -/
theorem standsOut_of_crests :
    crests.length < 10 ^ 12 ∧ Scalogram.of? .peak crests.toArray = .ok crestsScalogram ∧
      (List.range (Scalogram.height crests.length)).argmin crestsScalogram.rowSum = some 1 ∧
      (∀ i < crests.length, (∀ k ≤ 2, 1 ≤ k → isExtreme .peak crests.toArray k i = false) →
        1e-12 < deviation (crestsScalogram.column 2 i)) ∧
      (∃ marks, extremes .peak crests = .ok marks ∧ marks.length = crests.length ∧
        (∀ m ∈ marks, m = .high ∨ m = .plain) ∧
        (∀ i, marks[i]? = some .high ↔ StandsOut .peak crests 2 i) ∧
        ∀ i j, marks[i]? = some .high → marks[j]? = some .high → i < j → i + 2 < j) ∧
      (extremes .peak crests).toOption.map Mark.places = some [(2, .high), (6, .high)] := by
  have hlen : crests.length < 10 ^ 12 := by decide
  have hl : (List.range (Scalogram.height crests.length)).argmin crestsScalogram.rowSum
      = some 1 := by decide +kernel
  have hnoise : ∀ i < crests.length,
      (∀ k ≤ 2, 1 ≤ k → isExtreme .peak crests.toArray k i = false) →
        1e-12 < deviation (crestsScalogram.column 2 i) := by
    decide +kernel
  exact ⟨hlen, rfl, hl, hnoise, extremes_iff_standsOut hlen rfl hl (Nat.le_refl 2) hnoise,
    by decide +kernel⟩

end RideHud.Series
