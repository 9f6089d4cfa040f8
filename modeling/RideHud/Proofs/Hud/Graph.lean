import Mathlib.Data.List.Forall2
import Mathlib.Data.List.TakeWhile
import Mathlib.Tactic.Linarith
import RideHud.Proofs.Exact
import RideHud.Proofs.Hud.Anchor

/-!
# What the graph shows

The line of the graph goes back from the anchor and ends before the first bucket that is too old. As
buckets are in order of time, none that is in the window is cut off: there is a point for each of
them (`forall₂_points`). With exact arithmetic the line goes from the right edge to the left, and
does not leave the graph there or at the bottom (`Inside`, `inside_points`).
-/

namespace RideHud

/-- A time before another one is told by the difference, or is zero. -/
theorem Micros.toNat_before (t d : Micros) : (t.before d).toNat = t.toNat - d.toNat := by
  unfold before
  split
  · next h =>
      have hlt := UInt64.lt_iff_toNat_lt.mp h
      rw [Nat.sub_eq_zero_of_le hlt.le]
      rfl
  · next h => exact UInt64.toNat_sub_of_le _ _ (UInt64.not_lt.mp h)

namespace LoadGraph

open Timeline

variable {window : Micros} {anchor : ℕ}

/-! ## The window -/

/-- The time at a place is in the window that ends with the time of the anchor. -/
def InWindow (window : Micros) (times : List Micros) (anchor i : ℕ) : Prop :=
  ∃ t ∈ times[i]?, ∃ now ∈ times[anchor]?, now.toNat - window.toNat ≤ t.toNat

instance (window : Micros) (times : List Micros) (anchor : ℕ) :
    DecidablePred (InWindow window times anchor) :=
  fun i => inferInstanceAs (Decidable (∃ t ∈ times[i]?, ∃ now ∈ times[anchor]?, _))

/-- The places in the window, from the anchor back to the second bucket. -/
def places (window : Micros) (times : List Micros) (anchor : ℕ) : List ℕ :=
  (List.range' 1 anchor).reverse.filter fun i => InWindow window times anchor i

section

variable {α : Type} {maxLoad : α} {buckets : List (Bucket α)} {last : Bucket α}

/-- A bucket is not too old. -/
theorem kept_iff {now : Micros} {b : Bucket α} :
    (!decide (b.time < now.before window)) = true ↔ now.toNat - window.toNat ≤ b.time.toNat := by
  rw [Bool.not_eq_true', decide_eq_false_iff_not, UInt64.not_lt, UInt64.le_iff_toNat_le,
    Micros.toNat_before]

/-- The place of a bucket is in the window if the bucket is not too old. -/
theorem inWindow_iff {i : ℕ} {b : Bucket α} (hlast : buckets[anchor]? = some last)
    (hb : buckets[i]? = some b) :
    InWindow window (buckets.map Bucket.time) anchor i ↔
      (!decide (b.time < last.time.before window)) = true := by
  rw [InWindow, List.getElem?_map, List.getElem?_map, hlast, hb, kept_iff]
  simp

/-- The buckets up to the anchor and their places, in the order of the line. -/
theorem forall₂_reverse (h : anchor < buckets.length) :
    List.Forall₂ (fun i b => buckets[i]? = some b) (List.range' 1 anchor).reverse
      ((buckets.take (anchor + 1)).drop 1).reverse := by
  rw [List.forall₂_reverse_iff, List.forall₂_iff_get]
  refine ⟨by simp; omega, fun k hk hk' => ?_⟩
  simp only [List.get_eq_getElem, List.getElem_drop, List.getElem_take, List.getElem_range',
    Nat.one_mul]
  exact List.getElem?_eq_getElem _

/-- If what holds of an element holds of all before it, then a list is cut off at the first element
of which it does not hold. -/
theorem takeWhile_eq_filter {p : Bucket α → Bool} (h : buckets.Pairwise fun b c => p c → p b) :
    buckets.takeWhile p = buckets.filter p := by
  induction h with
  | nil => rfl
  | cons hhead _ ih =>
      rw [List.takeWhile_cons, List.filter_cons, ih]
      split
      · rfl
      · next hfalse => exact (List.filter_eq_nil_iff.mpr fun c hc hp => hfalse (hhead c hc hp)).symm

/-- Buckets go back in time along the line. -/
theorem pairwise_reverse (hordered : buckets.Pairwise fun b c => b.time < c.time) (anchor : ℕ) :
    ((buckets.take (anchor + 1)).drop 1).reverse.Pairwise fun b c => c.time < b.time :=
  List.pairwise_reverse.mpr
    (hordered.sublist ((List.drop_sublist _ _).trans (List.take_sublist _ _)))

/-- **What is shown are the buckets in the window**: none of them is cut off. -/
theorem forall₂_shown (hordered : buckets.Pairwise fun b c => b.time < c.time)
    (hlast : buckets[anchor]? = some last) :
    List.Forall₂ (fun i b => buckets[i]? = some b)
      (places window (buckets.map Bucket.time) anchor)
      (shown window buckets anchor last.time) := by
  have hfilter : shown window buckets anchor last.time
      = ((buckets.take (anchor + 1)).drop 1).reverse.filter
          fun b => !(b.time < last.time.before window) :=
    takeWhile_eq_filter ((pairwise_reverse hordered anchor).imp fun hlt hc =>
      kept_iff.mpr (Nat.le_trans (kept_iff.mp hc) (UInt64.lt_iff_toNat_lt.mp hlt).le))
  rw [hfilter]
  exact List.rel_filter (fun i b hb => decide_eq_true_iff.trans (inWindow_iff hlast hb))
    (forall₂_reverse (List.getElem?_eq_some_iff.mp hlast).1)

/-- A bucket that is shown is not later than the anchor, and not older than the window is long. -/
theorem ago_le_of_mem_shown (hordered : buckets.Pairwise fun b c => b.time < c.time)
    (hlast : buckets[anchor]? = some last) {b : Bucket α}
    (hb : b ∈ shown window buckets anchor last.time) :
    (last.time - b.time).toNat = last.time.toNat - b.time.toNat ∧
      b.time.toNat ≤ last.time.toNat ∧ (last.time - b.time).toNat ≤ window.toNat := by
  obtain ⟨i, -, hi, hget⟩ := mem_shown hb
  obtain ⟨b', hget', hle⟩ := exists_bucket hordered hlast hi
  obtain rfl : b = b' := Option.some.inj (hget.symm.trans hget')
  have hkept := kept_iff.mp
    (List.mem_takeWhile_imp (p := fun b : Bucket α => !(b.time < last.time.before window)) hb)
  have hago := UInt64.toNat_sub_of_le _ _ hle
  exact ⟨hago, UInt64.le_iff_toNat_le.mp hle, by omega⟩

variable [Elementary α]

/-- The point is that of the bucket at a place, on the graph that ends at a time. -/
def IsPoint (window : Micros) (maxLoad : α) (buckets : List (Bucket α)) (now : Micros) (i : ℕ)
    (p : α × α) : Prop :=
  ∃ b, buckets[i]? = some b ∧ p = point window maxLoad now b

/-- **The graph has a point for each bucket in the window**, from the anchor back. -/
theorem forall₂_points (hordered : buckets.Pairwise fun b c => b.time < c.time)
    (hlast : buckets[anchor]? = some last) :
    List.Forall₂ (IsPoint window maxLoad buckets last.time)
      (places window (buckets.map Bucket.time) anchor) (points window maxLoad buckets anchor) := by
  rw [points, hlast]
  dsimp only
  rw [List.forall₂_map_right_iff]
  exact (forall₂_shown hordered hlast).imp fun i b hb => ⟨b, hb, rfl⟩

/-- The line begins with the anchor, which is in its own window. -/
theorem head?_points (hlast : buckets[anchor]? = some last) (hanchor : 1 ≤ anchor) :
    (points window maxLoad buckets anchor).head? = some (point window maxLoad last.time last) := by
  have hsplit : ((buckets.take (anchor + 1)).drop 1).reverse
      = last :: ((buckets.take anchor).drop 1).reverse := by
    have hlen : 1 ≤ (buckets.take anchor).length := by
      have hlt := (List.getElem?_eq_some_iff.mp hlast).1
      rw [List.length_take]
      omega
    rw [List.take_add_one, hlast, Option.toList_some, List.drop_append_of_le_length hlen,
      List.reverse_append, List.reverse_singleton, List.singleton_append]
  rw [points, hlast]
  dsimp only
  rw [shown, hsplit, List.takeWhile_cons, if_pos (kept_iff.mpr (Nat.sub_le _ _)), List.map_cons,
    List.head?_cons]

/-- Without a bucket before the anchor there is no line. -/
theorem points_zero (window : Micros) (maxLoad : α) (buckets : List (Bucket α)) :
    points window maxLoad buckets 0 = [] := by
  unfold points
  cases buckets with
  | nil => rfl
  | cons b bs => rfl

end

/-! ## The edges of the graph -/

open scoped RideHud.Exact

/-- Points from the right edge to the left, between both of them and not below the bottom. -/
structure Inside (points : List (ℝ × ℝ)) : Prop where
  starts : ∀ p ∈ points.head?, p.1 = 200
  leftward : points.Pairwise fun p q => q.1 < p.1
  bounded : ∀ p ∈ points, 0 ≤ p.1 ∧ p.2 ≤ 100

/-- The abscissa of a point, which is as far from the right edge as its bucket is from the end. -/
theorem point_fst (window : Micros) (maxLoad : ℝ) (now : Micros) (b : Bucket ℝ) :
    (point window maxLoad now b).1 = 200 - 200 / window.toNat * (now - b.time).toNat := by
  show (width : ℝ) - width / window.toNat * (now - b.time).toNat = _
  rw [show (width : ℝ) = 200 from Nat.cast_ofNat]

/-- No point lies below the bottom. -/
theorem point_snd_le {maxLoad : ℝ} (hmax : 0 ≤ maxLoad) (window now : Micros) (b : Bucket ℝ) :
    (point window maxLoad now b).2 ≤ 100 := by
  have hload : 0 ≤ b.load := Real.sqrt_nonneg _
  have hshare : 0 ≤ 100 / maxLoad * b.load := mul_nonneg (div_nonneg (by norm_num) hmax) hload
  show (height : ℝ) - height / maxLoad * b.load ≤ 100
  rw [show (height : ℝ) = 100 from Nat.cast_ofNat]
  linarith only [hshare]

variable {maxLoad : ℝ} {buckets : List (Bucket ℝ)} {last : Bucket ℝ}

/-- A line that begins at all begins at the right edge. -/
theorem fst_of_mem_head?_points (hlast : buckets[anchor]? = some last) {p : ℝ × ℝ}
    (hp : p ∈ (points window maxLoad buckets anchor).head?) : p.1 = 200 := by
  rcases Nat.eq_zero_or_pos anchor with rfl | hanchor
  · rw [points_zero] at hp
    cases hp
  · rw [head?_points hlast hanchor] at hp
    cases hp
    rw [point_fst, UInt64.sub_self]
    norm_num

/-- The line goes to the left. -/
theorem pairwise_fst_points (hordered : buckets.Pairwise fun b c => b.time < c.time)
    (hlast : buckets[anchor]? = some last) (hwindow : 1 ≤ window) :
    (points window maxLoad buckets anchor).Pairwise fun p q => q.1 < p.1 := by
  have hpos : (0 : ℝ) < window.toNat := Nat.cast_pos.mpr (UInt64.le_iff_toNat_le.mp hwindow)
  have hshown : (shown window buckets anchor last.time).Pairwise fun b c => c.time < b.time :=
    (pairwise_reverse hordered anchor).sublist (List.takeWhile_sublist _)
  rw [points, hlast]
  dsimp only
  refine List.pairwise_map.mpr (hshown.imp_of_mem fun {b c} hb hc hlt => ?_)
  obtain ⟨hago, hle, -⟩ := ago_le_of_mem_shown hordered hlast hb
  obtain ⟨hago', -, -⟩ := ago_le_of_mem_shown hordered hlast hc
  have holder : (last.time - b.time).toNat < (last.time - c.time).toNat := by
    have hlt' := UInt64.lt_iff_toNat_lt.mp hlt
    omega
  rw [point_fst, point_fst]
  gcongr

/-- It does not leave the graph at the left edge or at the bottom. -/
theorem bounds_of_mem_points (hordered : buckets.Pairwise fun b c => b.time < c.time)
    (hlast : buckets[anchor]? = some last) (hwindow : 1 ≤ window) (hmax : 0 ≤ maxLoad) {p : ℝ × ℝ}
    (hp : p ∈ points window maxLoad buckets anchor) : 0 ≤ p.1 ∧ p.2 ≤ 100 := by
  have hpos : (0 : ℝ) < window.toNat := Nat.cast_pos.mpr (UInt64.le_iff_toNat_le.mp hwindow)
  rw [points, hlast] at hp
  obtain ⟨b, hb, rfl⟩ := List.mem_map.mp hp
  obtain ⟨-, -, hle⟩ := ago_le_of_mem_shown hordered hlast hb
  have hshare : (200 : ℝ) / window.toNat * (last.time - b.time).toNat ≤ 200 := by
    rw [div_mul_eq_mul_div, div_le_iff₀ hpos]
    gcongr
  exact ⟨by rw [point_fst]; exact sub_nonneg.mpr hshare, point_snd_le hmax _ _ b⟩

/-- **The line lies inside the graph**, with exact arithmetic. -/
theorem inside_points (hordered : buckets.Pairwise fun b c => b.time < c.time)
    (hlast : buckets[anchor]? = some last) (hwindow : 1 ≤ window) (hmax : 0 ≤ maxLoad) :
    Inside (points window maxLoad buckets anchor) where
  starts _ hp := fst_of_mem_head?_points hlast hp
  leftward := pairwise_fst_points hordered hlast hwindow
  bounded _ hp := bounds_of_mem_points hordered hlast hwindow hmax hp

/-- Buckets of the same times are in the same window, so with exact arithmetic the line has its
points at the same places and lies inside the graph. -/
theorem exact_points {β : Type} {rounded : List (Bucket β)} {now : Bucket β}
    (hordered : rounded.Pairwise fun b c => b.time < c.time) (hnow : rounded[anchor]? = some now)
    (htimes : buckets.map Bucket.time = rounded.map Bucket.time) (hwindow : 1 ≤ window)
    (hmax : 0 ≤ maxLoad) :
    List.Forall₂ (IsPoint window maxLoad buckets now.time)
        (places window (rounded.map Bucket.time) anchor) (points window maxLoad buckets anchor) ∧
      Inside (points window maxLoad buckets anchor) := by
  have hsame := congrArg (·[anchor]?) htimes
  simp only [List.getElem?_map, hnow, Option.map_some, Option.map_eq_some_iff] at hsame
  obtain ⟨last, hlast, htime⟩ := hsame
  have hordered' : buckets.Pairwise fun b c => b.time < c.time := by
    rw [← List.pairwise_map (R := (· < ·)), htimes, List.pairwise_map]
    exact hordered
  rw [← htimes, ← htime]
  exact ⟨forall₂_points hordered' hlast, inside_points hordered' hlast hwindow hmax⟩

end LoadGraph

end RideHud
