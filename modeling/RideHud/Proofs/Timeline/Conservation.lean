import Mathlib.Algebra.Order.BigOperators.Group.List
import RideHud.Proofs.Exact
import RideHud.Proofs.Timeline.Averages

/-!
# Averages conserve the signal

A bucket averages each reading of its samples. With exact arithmetic, the average as often as the
bucket counts samples is their sum (`count_mul_ofBucket`), so what the buckets of a recording tell
adds up to what its samples tell (`sum_count_mul_ofBucket`). An average lies between any bounds of
its samples (`mean_mem_Icc`), so a reading that never changes is told as it is, and a bucket that
repeats another one goes on telling it (`ofBucket_of_constant`).
-/

namespace RideHud

open Timeline

/-! ## Readings -/

/-- An axis of space. -/
inductive Axis where
  | x
  | y
  | z

/-- The component of a vector along an axis. -/
def Vec.along {α : Type} (v : Vec α) : Axis → α
  | .x => v.x
  | .y => v.y
  | .z => v.z

/-- A number of a sample that is averaged. -/
inductive Reading where
  | accel (axis : Axis)
  | gyro (axis : Axis)
  | mag (axis : Axis)
  | temperature
  | pressure

namespace Reading

variable {α : Type}

/-- What a sample tells. -/
def ofSample : Reading → Sample α → α
  | accel axis, s => s.accel.along axis
  | gyro axis, s => s.gyro.along axis
  | mag axis, s => s.mag.along axis
  | temperature, s => s.temperature
  | pressure, s => s.pressure

/-- What a bucket tells. -/
def ofBucket : Reading → Bucket α → α
  | accel axis, b => b.accel.along axis
  | gyro axis, b => b.gyro.along axis
  | mag axis, b => b.mag.along axis
  | temperature, b => b.temperature
  | pressure, b => b.pressure

/-- A bucket that repeats another one tells what that tells. -/
theorem ofBucket_repeat (r : Reading) (b : Bucket α) (time : Micros) (count : ℕ) :
    r.ofBucket { b with time := time, count := count } = r.ofBucket b := by
  cases r <;> rfl

variable [Scalar α]

theorem along_meanVec (f : Sample α → Vec α) (inside : List (Sample α)) (axis : Axis) :
    (meanVec f inside).along axis = mean (fun s => (f s).along axis) inside := by
  cases axis <;> rfl

/-- A bucket that summarises samples tells the mean of each reading. -/
theorem ofBucket_of_summarises (r : Reading) {b : Bucket α} {inside : List (Sample α)}
    (h : Summarises b inside) : r.ofBucket b = mean r.ofSample inside := by
  cases r with
  | accel axis => exact (congrArg (·.along axis) h.accel).trans (along_meanVec _ _ _)
  | gyro axis => exact (congrArg (·.along axis) h.gyro).trans (along_meanVec _ _ _)
  | mag axis => exact (congrArg (·.along axis) h.mag).trans (along_meanVec _ _ _)
  | temperature => exact h.temperature
  | pressure => exact h.pressure

end Reading

namespace Timeline

open scoped RideHud.Exact

variable {K : Type} [DivisionRing K] [LinearOrder K]

/-! ## Means -/

/-- Without rounding, a mean is a sum over the number of samples. -/
theorem mean_eq (f : Sample K → K) (inside : List (Sample K)) :
    mean f inside = (inside.map f).sum / inside.length := by
  rw [← total_map, Exact.total_eq_sum]

variable [IsStrictOrderedRing K] {inside : List (Sample K)} {f : Sample K → K} {lo hi c : K}

/-- The mean as often as there are samples is their sum. -/
theorem length_mul_mean (f : Sample K → K) (hne : inside ≠ []) :
    inside.length * mean f inside = (inside.map f).sum := by
  have hlen : (inside.length : K) ≠ 0 :=
    Nat.cast_ne_zero.mpr (mt List.length_eq_zero_iff.mp hne)
  rw [mean_eq, Nat.cast_comm, div_mul_cancel₀ _ hlen]

/-- **A mean lies between the bounds of its samples.** -/
theorem mean_mem_Icc (hne : inside ≠ []) (h : ∀ s ∈ inside, f s ∈ Set.Icc lo hi) :
    mean f inside ∈ Set.Icc lo hi := by
  have hlen : (0 : K) < inside.length := Nat.cast_pos.mpr (List.length_pos_of_ne_nil hne)
  have hlow := (inside.map f).card_nsmul_le_sum lo (List.forall_mem_map.mpr fun s hs => (h s hs).1)
  have hhigh := (inside.map f).sum_le_card_nsmul hi (List.forall_mem_map.mpr fun s hs => (h s hs).2)
  rw [List.length_map, nsmul_eq_mul, Nat.cast_comm] at hlow hhigh
  rw [mean_eq]
  exact ⟨(le_div_iff₀ hlen).mpr hlow, (div_le_iff₀ hlen).mpr hhigh⟩

/-- The mean of a constant is that constant. -/
theorem mean_of_constant (hne : inside ≠ []) (h : ∀ s ∈ inside, f s = c) : mean f inside = c := by
  have hmem := mean_mem_Icc hne fun s hs => ⟨(h s hs).ge, (h s hs).le⟩
  rwa [Set.Icc_self, Set.mem_singleton_iff] at hmem

/-! ## The buckets of a recording -/

variable {samples : List (Sample K)} {duration : Micros}

omit [IsStrictOrderedRing K] in
/-- The bucket of a span with samples tells their means. -/
theorem ofBucket_spanBucket (r : Reading) {i : ℕ} (hne : span samples duration i ≠ []) :
    r.ofBucket (spanBucket samples duration i) = mean r.ofSample (span samples duration i) := by
  rw [spanBucket_of_ne_nil hne]
  exact r.ofBucket_of_summarises (summarises_ofSamples _ hne)

/-- **A bucket tells as much as its samples**, be it that there are none. -/
theorem count_mul_ofBucket (r : Reading) (i : ℕ) :
    (spanBucket samples duration i).count * r.ofBucket (spanBucket samples duration i)
      = ((span samples duration i).map r.ofSample).sum := by
  rw [count_spanBucket]
  by_cases hne : span samples duration i = []
  · rw [hne, List.length_nil, Nat.cast_zero, zero_mul, List.map_nil, List.sum_nil]
  · rw [ofBucket_spanBucket r hne, length_mul_mean _ hne]

/-- **The first buckets tell as much as the samples of their spans.** -/
theorem sum_count_mul_ofBucket (h : Ordered samples) (r : Reading) (n : ℕ) :
    (((List.range n).map (spanBucket samples duration)).map fun b => (b.count : K) * r.ofBucket b).sum
      = ((before samples (n * duration.toNat)).map r.ofSample).sum := by
  induction n with
  | zero => simp [before]
  | succ n ih =>
      rw [List.range_succ, List.map_append, List.map_append, List.sum_append, ih,
        ← before_append_span h, List.map_append, List.sum_append, List.map_singleton,
        List.map_singleton, List.sum_singleton, count_mul_ofBucket]

/-- A reading that never changes is told by every bucket from the first one with samples on. -/
theorem ofBucket_of_constant (r : Reading) (h : ∀ s ∈ samples, r.ofSample s = c) {j i : ℕ}
    (hle : j ≤ i) (hne : span samples duration j ≠ []) :
    r.ofBucket (spanBucket samples duration i) = c := by
  have hspan (k : ℕ) (hk : span samples duration k ≠ []) :
      r.ofBucket (spanBucket samples duration k) = c := by
    rw [ofBucket_spanBucket r hk]
    exact mean_of_constant hk fun s hs => h s (mem_span.mp hs).1
  induction i, hle using Nat.le_induction with
  | base => exact hspan j hne
  | succ i _ ih =>
      by_cases hempty : span samples duration (i + 1) = []
      · rw [spanBucket, hempty]
        exact (r.ofBucket_repeat _ _ _).trans ih
      · exact hspan (i + 1) hempty

/-- **Averages conserve the signal.** With exact arithmetic, let a recording in order have buckets.
For each reading that is averaged: the averages, each as often as its bucket counts samples, add up
to what the samples tell before the end of the last whole span; the average of a bucket lies between
the least and the greatest reading of its samples, if there are any; and if the reading is the same
in all samples, it is that in every bucket from the first one with samples on. -/
theorem buckets_conserve_readings (hordered : Ordered samples) {last : Sample K}
    (hlast : samples.getLast? = some last) {bs : List (Bucket K)}
    (h : buckets samples duration = .ok bs) (r : Reading) :
    (bs.map fun b => (b.count : K) * r.ofBucket b).sum
      = ((samples.filter fun s => decide (s.time.toNat
          < last.time.toNat / duration.toNat * duration.toNat)).map r.ofSample).sum ∧
    (∀ i b, bs[i]? = some b → span samples duration i ≠ [] →
      ∃ low ∈ span samples duration i, ∃ high ∈ span samples duration i,
        (∀ s ∈ span samples duration i,
          r.ofSample low ≤ r.ofSample s ∧ r.ofSample s ≤ r.ofSample high) ∧
        r.ofSample low ≤ r.ofBucket b ∧ r.ofBucket b ≤ r.ofSample high) ∧
    ∀ c, (∀ s ∈ samples, r.ofSample s = c) →
      ∀ i b, bs[i]? = some b → ∀ j ≤ i, span samples duration j ≠ [] → r.ofBucket b = c := by
  obtain rfl := eq_map_range_of_buckets hordered hlast h
  have hplace {i : ℕ} {b : Bucket K} (hb : ((List.range (last.time.toNat / duration.toNat)).map
      (spanBucket samples duration))[i]? = some b) : b = spanBucket samples duration i := by
    rw [List.getElem?_map, Option.map_eq_some_iff] at hb
    obtain ⟨k, hk, rfl⟩ := hb
    obtain ⟨-, rfl⟩ := List.getElem?_eq_some_iff.mp hk
    rw [List.getElem_range]
  refine ⟨sum_count_mul_ofBucket hordered r _, fun i b hb hne => ?_, fun c hc i b hb j hle hne => ?_⟩
  · obtain ⟨low, hlow, high, hhigh, hbounds⟩ := Exact.exists_extremes r.ofSample hne
    refine ⟨low, hlow, high, hhigh, hbounds, ?_⟩
    rw [hplace hb, ofBucket_spanBucket r hne]
    exact mean_mem_Icc hne hbounds
  · rw [hplace hb]
    exact ofBucket_of_constant r hc hle hne

/-- A sample that tells the weather, which is always as warm. -/
def weather (time : Micros) (pressure : ℚ) : Sample ℚ :=
  { Sample.zero with time := time, temperature := 21, pressure := pressure }

/-- No sample in the first span, two in the second one, none in the third, one in the fourth and one
behind it. -/
def patchy : List (Sample ℚ) :=
  [weather 110 1000, weather 160 1004, weather 350 990, weather 480 970]

/-- The last pressure is not told, and the third bucket tells how warm it was. -/
theorem buckets_of_patchy : Ordered patchy ∧ patchy.getLast? = some (weather 480 970) ∧
    ∃ bs, buckets patchy 100 = .ok bs ∧
      (bs.map fun b => (b.count : ℚ) * b.pressure).sum = 2994 ∧
      (∀ b, bs[1]? = some b → 1000 ≤ b.pressure ∧ b.pressure ≤ 1004) ∧
      ∀ b, bs[2]? = some b → b.temperature = 21 := by
  have hordered : Ordered patchy := by
    unfold Ordered patchy
    decide
  have hlast : patchy.getLast? = some (weather 480 970) := rfl
  have hbs : buckets patchy 100 = .ok _ :=
    buckets_eq_map_range hordered hlast (by decide) (by decide)
  obtain ⟨hsum, hmeans, -⟩ := buckets_conserve_readings hordered hlast hbs .pressure
  obtain ⟨-, -, hwarm⟩ := buckets_conserve_readings hordered hlast hbs .temperature
  have hinside : ∀ s ∈ span patchy 100 1, 1000 ≤ s.pressure ∧ s.pressure ≤ 1004 := by
    decide +kernel
  refine ⟨hordered, hlast, _, hbs, hsum.trans (by decide +kernel), fun b hb => ?_, fun b hb => ?_⟩
  · obtain ⟨low, hlow, high, hhigh, -, hle, hge⟩ := hmeans 1 b hb (by decide +kernel)
    exact ⟨(hinside low hlow).1.trans hle, hge.trans (hinside high hhigh).2⟩
  · exact hwarm 21 (by decide +kernel) 2 b hb 1 (by decide) (by decide +kernel)

end Timeline

end RideHud
