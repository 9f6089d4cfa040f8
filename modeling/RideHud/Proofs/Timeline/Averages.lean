import Mathlib.Data.List.MinMax
import RideHud.Proofs.Timeline.Span

/-!
# What buckets tell

A bucket is made from the samples of its span (`next_eq`), or from the bucket before if there are
none. So it tells the means of its samples and the orientation of the one nearest to its middle, or
what the latest bucket with samples tells.

* `summarises_ofSamples`: what a bucket tells of its samples;
* `buckets_eq_map_range`: which spans have buckets;
* `buckets_tell_spans`: what every bucket of a recording in order tells.
-/

namespace RideHud.Timeline

open scoped Scalar

section

variable {α : Type}

/-! ## The nearest sample -/

/-- How far a sample is from a time, in microseconds. -/
def gap (time : Micros) (s : Sample α) : ℕ := ((s.time.toNat : ℤ) - time.toNat).natAbs

/-- The distance between two times, as a number. -/
theorem toNat_distance (a b : Micros) :
    (a.distance b).toNat = ((a.toNat : ℤ) - b.toNat).natAbs := by
  unfold Micros.distance
  split
  · next h =>
      have hlt := UInt64.lt_iff_toNat_lt.mp h
      rw [UInt64.toNat_sub_of_le _ _ (UInt64.le_of_lt h)]
      omega
  · next h =>
      have hle := UInt64.not_lt.mp h
      have hle' := UInt64.le_iff_toNat_le.mp hle
      rw [UInt64.toNat_sub_of_le _ _ hle]
      omega

/-- Of two samples the later one is taken only if it is nearer. -/
theorem nearer_eq (time : Micros) (a b : Sample α) :
    Bucket.nearer time a b = if gap time b < gap time a then b else a := by
  refine if_congr ?_ rfl rfl
  rw [UInt64.lt_iff_toNat_lt, toNat_distance, toNat_distance, gap, gap]

/-- A walk that keeps the nearer sample ends with the first nearest one. -/
theorem argmin_cons_eq_foldl (time : Micros) (s : Sample α) (ss : List (Sample α)) :
    (s :: ss).argmin (gap time) = some (ss.foldl (Bucket.nearer time) s) := by
  induction ss using List.reverseRecOn with
  | nil => rfl
  | append_singleton ss r ih =>
      rw [← List.cons_append, List.argmin_concat, ih, List.foldl_concat, nearer_eq]
      exact (apply_ite some _ _ _).symm

end

/-! ## What a bucket tells of its samples -/

section

variable {α : Type} [Scalar α]

/-- The mean of a quantity: its sum, added up from zero in order, over the number of samples. -/
def mean (f : Sample α → α) (inside : List (Sample α)) : α :=
  inside.foldl (fun sum s => sum + f s) 0 / Nat.cast inside.length

/-- A vector of means. -/
def meanVec (f : Sample α → Vec α) (inside : List (Sample α)) : Vec α :=
  ⟨mean (fun s => (f s).x) inside, mean (fun s => (f s).y) inside, mean (fun s => (f s).z) inside⟩

/-- A bucket tells the means of its samples, and the orientation of the first of those that are
nearest to its time. -/
structure Summarises (b : Bucket α) (inside : List (Sample α)) : Prop where
  accel : b.accel = meanVec (·.accel) inside
  gyro : b.gyro = meanVec (·.gyro) inside
  mag : b.mag = meanVec (·.mag) inside
  temperature : b.temperature = mean (·.temperature) inside
  pressure : b.pressure = mean (·.pressure) inside
  quat : (inside.argmin (gap b.time)).map (·.quat) = some b.quat

/-- Vectors are added up component by component. -/
theorem foldl_add (vs : List (Vec α)) (u : Vec α) :
    vs.foldl Vec.add u
      = ⟨vs.foldl (fun sum v => sum + v.x) u.x, vs.foldl (fun sum v => sum + v.y) u.y,
          vs.foldl (fun sum v => sum + v.z) u.z⟩ := by
  induction vs generalizing u with
  | nil => rfl
  | cons v vs ih => exact ih (u.add v)

theorem average_map (f : Sample α → Vec α) (inside : List (Sample α)) :
    Bucket.average (inside.map f) = meanVec f inside := by
  rw [Bucket.average, foldl_add, List.foldl_map, List.foldl_map, List.foldl_map, List.length_map]
  rfl

theorem total_map (f : Sample α → α) (inside : List (Sample α)) :
    Scalar.total (inside.map f) / Nat.cast inside.length = mean f inside := by
  rw [Scalar.total, List.foldl_map]
  rfl

theorem summarises_ofSamples (time : Micros) {inside : List (Sample α)} (h : inside ≠ []) :
    Summarises (Bucket.ofSamples time inside) inside := by
  refine ⟨average_map _ _, average_map _ _, average_map _ _, total_map _ _, total_map _ _, ?_⟩
  obtain ⟨s, ss, rfl⟩ := List.exists_cons_of_ne_nil h
  exact congrArg (Option.map (·.quat)) (argmin_cons_eq_foldl time s ss)

/-! ## Making buckets -/

variable {samples : List (Sample α)} {duration : Micros}

/-- The bucket of a span: a span without samples repeats the bucket before. -/
def spanBucket (samples : List (Sample α)) (duration : Micros) : ℕ → Bucket α
  | 0 => Bucket.following none (middle duration 0) (span samples duration 0)
  | i + 1 =>
    Bucket.following (some (spanBucket samples duration i)) (middle duration (i + 1))
      (span samples duration (i + 1))

/-- **The next bucket is made from the next span**, if all spans before have been passed. -/
theorem next_eq (h : Ordered samples) {last : Micros} {cut : Cut α} {i : ℕ}
    (hi : i < last.toNat / duration.toNat) (hsize : cut.buckets.size = i)
    (hfirst : cut.first = (before samples (i * duration.toNat)).length) :
    Cut.next samples.toArray duration cut
      = { first := (before samples ((i + 1) * duration.toNat)).length
          buckets := cut.buckets.push (Bucket.following cut.buckets.back? (middle duration i)
            (span samples duration i)) } := by
  have hstart := toNat_start hi
  have hstop := toNat_stop hi
  have hle : i * duration.toNat ≤ (UInt64.ofNat i * duration + duration).toNat := by
    rw [hstop]
    exact Nat.mul_le_mul_right _ (Nat.le_succ i)
  have hsplit := bisect_before h hle
  have hinside : ((span samples duration i).filter
      fun s => !decide (s.time < UInt64.ofNat i * duration)) = span samples duration i := by
    rw [List.filter_eq_self]
    intro s hs
    obtain ⟨-, hge, -⟩ := mem_span.mp hs
    rw [Bool.not_eq_true', decide_eq_false_iff_not, UInt64.lt_iff_toNat_lt, hstart]
    exact Nat.not_lt.mpr hge
  rw [hstop] at hsplit
  simp only [Cut.next, hsize, hfirst, List.size_toArray, hsplit]
  rw [List.extract_toArray, extract_span h, hinside]
  rfl

/-- The buckets made so far are those of the first spans, and these spans have been passed. -/
theorem repeat_next_eq (h : Ordered samples) {last : Micros} {n : ℕ}
    (hn : n ≤ last.toNat / duration.toNat) :
    Nat.repeat (Cut.next samples.toArray duration) n {}
      = { first := (before samples (n * duration.toNat)).length
          buckets := ((List.range n).map (spanBucket samples duration)).toArray } := by
  induction n with
  | zero => simp [Nat.repeat, before]
  | succ n ih =>
      rw [Nat.repeat, ih (Nat.le_of_succ_le hn),
        next_eq h (Nat.lt_of_succ_le hn) (by rw [List.size_toArray, List.length_map,
          List.length_range]) rfl]
      congr 1
      rw [List.push_toArray, List.range_succ, List.map_append, List.map_singleton,
        List.back?_toArray]
      congr 3
      cases n with
      | zero => rfl
      | succ n => rw [List.range_succ, List.map_append, List.map_singleton, List.getLast?_concat,
          spanBucket]

/-- **The buckets of a recording in order are those of its spans**, for all whole spans before the
time of the last sample. -/
theorem buckets_eq_map_range (h : Ordered samples) {last : Sample α}
    (hlast : samples.getLast? = some last) (hduration : 0 < duration)
    (hroom : Workspace.reserve (last.time / duration).toNat Bucket.bytes = .ok ()) :
    buckets samples duration
      = .ok ((List.range (last.time.toNat / duration.toNat)).map (spanBucket samples duration)) := by
  refine buckets_eq_ok_iff.mpr ⟨last, hlast, (UInt64.ne_of_lt hduration).symm, hroom, ?_⟩
  rw [UInt64.toNat_div, repeat_next_eq h (Nat.le_refl (last.time.toNat / duration.toNat))]

/-- If a recording in order has buckets, it has no others. -/
theorem eq_map_range_of_buckets (h : Ordered samples) {last : Sample α} {bs : List (Bucket α)}
    (hlast : samples.getLast? = some last) (hbs : buckets samples duration = .ok bs) :
    bs = (List.range (last.time.toNat / duration.toNat)).map (spanBucket samples duration) := by
  obtain ⟨last', hlast', hduration, hroom, -⟩ := buckets_eq_ok_iff.mp hbs
  obtain rfl : last = last' := Option.some.inj (hlast.symm.trans hlast')
  have hpos : 0 < duration := UInt64.lt_of_le_of_ne (UInt64.zero_le) hduration.symm
  exact Except.ok.inj (hbs.symm.trans (buckets_eq_map_range h hlast hpos hroom))

/-! ## What buckets tell of their spans -/

/-- A bucket counts the samples it is made from. -/
theorem count_following (previous : Option (Bucket α)) (time : Micros) (inside : List (Sample α)) :
    (Bucket.following previous time inside).count = inside.length := by
  unfold Bucket.following
  split
  · next hempty =>
      rw [List.isEmpty_iff.mp hempty]
      cases previous <;> rfl
  · rfl

/-- If there are samples, the bucket before makes no difference. -/
theorem following_of_ne_nil (previous : Option (Bucket α)) (time : Micros)
    {inside : List (Sample α)} (h : inside ≠ []) :
    Bucket.following previous time inside = Bucket.ofSamples time inside :=
  if_neg (by rwa [List.isEmpty_iff])

theorem time_spanBucket (i : ℕ) : (spanBucket samples duration i).time = middle duration i := by
  cases i <;> exact time_following _ _ _

theorem count_spanBucket (i : ℕ) :
    (spanBucket samples duration i).count = (span samples duration i).length := by
  cases i <;> exact count_following _ _ _

theorem spanBucket_of_ne_nil {i : ℕ} (h : span samples duration i ≠ []) :
    spanBucket samples duration i
      = Bucket.ofSamples (middle duration i) (span samples duration i) := by
  cases i <;> exact following_of_ne_nil _ _ h

/-- Behind the `j`-th span, as long as there are no samples, the `j`-th bucket is repeated. -/
theorem spanBucket_of_nil {i j : ℕ} (hj : j < i)
    (hempty : ∀ k, j < k → k ≤ i → span samples duration k = []) :
    spanBucket samples duration i
      = { spanBucket samples duration j with time := middle duration i, count := 0 } := by
  induction i with
  | zero => exact absurd hj (Nat.not_lt_zero j)
  | succ i ih =>
      rw [spanBucket, hempty (i + 1) hj (Nat.le_refl _)]
      rcases Nat.eq_or_lt_of_le (Nat.le_of_lt_succ hj) with rfl | hlt
      · rfl
      · rw [ih hlt fun k hk hle => hempty k hk (Nat.le_succ_of_le hle)]
        rfl

/-- Before the first sample there is nothing to repeat. -/
theorem spanBucket_of_all_nil {i : ℕ} (hempty : ∀ k ≤ i, span samples duration k = []) :
    spanBucket samples duration i = Bucket.vacant (middle duration i) := by
  rcases Nat.eq_zero_or_pos i with rfl | hpos
  · rw [spanBucket, hempty 0 (Nat.le_refl 0)]
    rfl
  · rw [spanBucket_of_nil hpos fun k _ hle => hempty k hle, spanBucket, hempty 0 (Nat.zero_le i)]
    rfl

/-- What the `i`-th of some buckets tells of a recording: the samples of its span, or the latest
bucket before that has samples. -/
structure Tells (samples : List (Sample α)) (duration : Micros) (bs : List (Bucket α)) (i : ℕ)
    (b : Bucket α) : Prop where
  time : b.time.toNat = i * duration.toNat + duration.toNat / 2
  count : b.count = (span samples duration i).length
  summarises : span samples duration i ≠ [] → Summarises b (span samples duration i)
  repeats : ∀ j < i, span samples duration j ≠ [] →
    (∀ k, j < k → k ≤ i → span samples duration k = []) →
      ∃ c, bs[j]? = some c ∧ b = { c with time := b.time, count := 0 }
  vacant : (∀ k ≤ i, span samples duration k = []) →
    b = ⟨b.time, ⟨0, 0, 0⟩, ⟨0, 0, 0⟩, ⟨0, 0, 0⟩, 0, 0, ⟨0, 0, 0, 0⟩, 0⟩

theorem tells_spanBucket {last : Micros} {i : ℕ} (hi : i < last.toNat / duration.toNat) :
    Tells samples duration
      ((List.range (last.toNat / duration.toNat)).map (spanBucket samples duration)) i
      (spanBucket samples duration i) := by
  have htime : (spanBucket samples duration i).time = middle duration i := time_spanBucket i
  refine ⟨?_, count_spanBucket i, fun hne => ?_, fun j hj hne hempty => ?_, fun hempty => ?_⟩
  · rw [htime, toNat_middle hi]
  · rw [spanBucket_of_ne_nil hne]
    exact summarises_ofSamples _ hne
  · refine ⟨spanBucket samples duration j, ?_, ?_⟩
    · rw [List.getElem?_map, List.getElem?_range (Nat.lt_trans hj hi), Option.map_some]
    · rw [htime]
      exact spanBucket_of_nil hj hempty
  · rw [htime]
    exact spanBucket_of_all_nil hempty

/-- **Buckets tell the spans of a recording.** For a recording in order and any duration, if there
is room, there is a bucket for every whole span before the time of the last sample. Its time is the
middle of its span; it counts the samples of the span and tells their means and the orientation of
the first one nearest to the middle. Without samples it repeats the latest bucket that has some, and
is zero if there is none. The samples before the end of the last span are those of the spans one
after the other, each in one span alone, and the others are in none. -/
theorem buckets_tell_spans (hordered : Ordered samples) {last : Sample α}
    (hlast : samples.getLast? = some last) (hduration : 0 < duration)
    (hroom : Workspace.reserve (last.time / duration).toNat Bucket.bytes = .ok ()) :
    ∃ bs, buckets samples duration = .ok bs ∧
      bs.length = last.time.toNat / duration.toNat ∧
      (∀ i b, bs[i]? = some b → Tells samples duration bs i b) ∧
      (List.range bs.length).flatMap (span samples duration)
        = samples.filter (fun s => decide (s.time.toNat < bs.length * duration.toNat)) ∧
      (∀ s ∈ samples, s.time.toNat < bs.length * duration.toNat →
        ∃! i, i < bs.length ∧ s ∈ span samples duration i) ∧
      ∀ s ∈ samples, bs.length * duration.toNat ≤ s.time.toNat →
        ∀ i < bs.length, s ∉ span samples duration i := by
  refine ⟨_, buckets_eq_map_range hordered hlast hduration hroom, ?_⟩
  rw [List.length_map, List.length_range]
  refine ⟨rfl, fun i b hb => ?_, flatMap_span hordered _, fun s hs hlt => ?_,
    fun s _ hge i hi hmem => ?_⟩
  · rw [List.getElem?_map, Option.map_eq_some_iff] at hb
    obtain ⟨j, hj, rfl⟩ := hb
    obtain ⟨hlt, rfl⟩ := List.getElem?_eq_some_iff.mp hj
    rw [List.length_range] at hlt
    rw [List.getElem_range]
    exact tells_spanBucket hlt
  · exact existsUnique_mem_span hs hlt
  · obtain ⟨-, -, hstop⟩ := mem_span.mp hmem
    exact absurd (Nat.lt_of_lt_of_le hstop (Nat.mul_le_mul_right _ hi)) (Nat.not_lt.mpr hge)

end

/-- A sample with an orientation of its own. -/
def turned (time : Micros) (quat : Quat Float) : Sample Float :=
  { Sample.zero with time := time, quat := quat }

/-- Three samples in the first span, two of them at the same time and all equally far from its
middle, none in the second one and one behind the third. -/
def tied : List (Sample Float) :=
  [turned 40 Quat.one, turned 60 Quat.zero, turned 60 Quat.zero, turned 350 Quat.zero]

/-- The first of the nearest samples gives its orientation to the first bucket, which the third one
repeats. -/
theorem buckets_tied : Ordered tied ∧ (0 : Micros) < 100 ∧
    Workspace.reserve ((350 : Micros) / 100).toNat Bucket.bytes = .ok () ∧
      ∃ bs, buckets tied 100 = .ok bs ∧ bs.length = 3 ∧
        (∀ b, bs[0]? = some b → b.time = 50 ∧ b.count = 3 ∧ b.quat = Quat.one) ∧
        ∀ b, bs[2]? = some b → b.time = 250 ∧ b.count = 0 ∧ b.quat = Quat.one := by
  have hordered : Ordered tied := by
    unfold Ordered tied
    decide
  have hroom : Workspace.reserve ((350 : Micros) / 100).toNat Bucket.bytes = .ok () := by decide
  obtain ⟨bs, hbs, hlength, htells, -⟩ := buckets_tell_spans hordered rfl (by decide) hroom
  have hfirst : ∀ b, bs[0]? = some b → b.time = 50 ∧ b.count = 3 ∧ b.quat = Quat.one := by
    intro b hb
    have htell := htells 0 b hb
    have htime : b.time = 50 := UInt64.toNat_inj.mp (htell.time.trans rfl)
    have hquat := (htell.summarises (by decide)).quat
    rw [htime] at hquat
    exact ⟨htime, htell.count.trans rfl, (Option.some.inj hquat).symm⟩
  refine ⟨hordered, by decide, hroom, bs, hbs, hlength, hfirst, fun b hb => ?_⟩
  have htell := htells 2 b hb
  have hempty : ∀ k, 0 < k → k ≤ 2 → span tied 100 k = [] := by
    intro k hpos hle
    obtain rfl | rfl : k = 1 ∨ k = 2 := by omega
    · rfl
    · rfl
  obtain ⟨c, hc, hrepeat⟩ := htell.repeats 0 (by decide) (by decide) hempty
  refine ⟨UInt64.toNat_inj.mp (htell.time.trans rfl), htell.count.trans rfl, ?_⟩
  rw [hrepeat]
  exact (hfirst c hc).2.2

end RideHud.Timeline
