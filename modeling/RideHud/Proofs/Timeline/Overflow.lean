import RideHud.Proofs.Hud.Anchor
import RideHud.Proofs.Timeline.Order

/-!
# Times of buckets do not overflow

The start, the end and the middle of a span are computed with words. They would go around if they
were too large, but a span that has a bucket ends by the time of the last sample, so they are what
they are as numbers. The loop that makes the buckets is the one that stops at the first overflow
(`checkedBuckets?_eq`), whatever samples there are and in whatever order.

* `checkedNext?_eq`: what one step computes does not overflow;
* `repeat_checkedNext?`: so nothing does as long as spans have buckets;
* `buckets_never_overflow`: where the times of buckets lie, and what that is good for.
-/

namespace RideHud

/-! ## Checked arithmetic -/

namespace Micros

/-- A number of microseconds as a time, if it is small enough. -/
def ofNat? (n : ℕ) : Option Micros := if n < UInt64.size then some (UInt64.ofNat n) else none

/-- The sum of two times, if it does not overflow. -/
def sum? (a b : Micros) : Option Micros := ofNat? (a.toNat + b.toNat)

/-- The product of two times, if it does not overflow. -/
def product? (a b : Micros) : Option Micros := ofNat? (a.toNat * b.toNat)

/-- A number that is told by a time is small enough. -/
theorem ofNat?_eq {n : ℕ} {t : Micros} (h : t.toNat = n) : ofNat? n = some t := by
  subst h
  rw [ofNat?, if_pos t.toNat_lt, UInt64.ofNat_toNat]

/-- A sum that overflows is none. -/
example : sum? latest 1 = none := by decide

end Micros

namespace Timeline

variable {α : Type} [Scalar α] {samples : List (Sample α)} {duration : Micros}

/-! ## The loop with checks -/

/-- Make the next bucket of a given duration, unless the number, the start, the end or the middle of
its span overflows. -/
def checkedNext? (samples : Array (Sample α)) (duration : Micros) (cut : Cut α) :
    Option (Cut α) := do
  let index ← Micros.ofNat? cut.buckets.size
  let start ← Micros.product? index duration
  let stop ← Micros.sum? start duration
  let middle ← Micros.sum? start (duration / 2)
  let split := bisect (fun s => s.time < stop) samples cut.first (samples.size - cut.first)
  let inside := (samples.extract cut.first split).toList.filter fun s => !(s.time < start)
  return { first := split
           buckets := cut.buckets.push (Bucket.following cut.buckets.back? middle inside) }

/-- The buckets of a recording as they would be if they came to nothing at an overflow. -/
def checkedBuckets? (samples : List (Sample α)) (duration : Micros) :
    Option (Except BucketError (List (Bucket α))) :=
  if duration = 0 then some (.error .noDuration)
  else
    match samples.getLast? with
    | none => some (.error .noSamples)
    | some last =>
      let count := (last.time / duration).toNat
      match Workspace.reserve count Bucket.bytes with
      | .error e => some (.error (.shortage e))
      | .ok () =>
        let samples := samples.toArray
        (Nat.repeat (·.bind (checkedNext? samples duration)) count (some {})).map fun cut =>
          .ok cut.buckets.toList

/-- The number of a span that ends in time can be told by a word. -/
theorem toNat_ofNat {last : Micros} {i : ℕ} (hi : i < last.toNat / duration.toNat) :
    (UInt64.ofNat i).toNat = i := by
  have hlast := last.toNat_lt
  have hle : last.toNat / duration.toNat ≤ last.toNat := Nat.div_le_self _ _
  exact UInt64.toNat_ofNat_of_lt' (by rw [UInt64.size]; omega)

/-- **No step overflows** that makes the bucket of a span that ends in time. -/
theorem checkedNext?_eq {last : Micros} {samples : Array (Sample α)} {cut : Cut α}
    (hi : cut.buckets.size < last.toNat / duration.toNat) :
    checkedNext? samples duration cut = some (Cut.next samples duration cut) := by
  have hstart := toNat_start hi
  have hindex : Micros.ofNat? cut.buckets.size = some (UInt64.ofNat cut.buckets.size) :=
    Micros.ofNat?_eq (toNat_ofNat hi)
  have hproduct : Micros.product? (UInt64.ofNat cut.buckets.size) duration
      = some (UInt64.ofNat cut.buckets.size * duration) :=
    Micros.ofNat?_eq (by rw [hstart, toNat_ofNat hi])
  have hsum : Micros.sum? (UInt64.ofNat cut.buckets.size * duration) duration
      = some (UInt64.ofNat cut.buckets.size * duration + duration) :=
    Micros.ofNat?_eq (by rw [hstart, toNat_stop hi, Nat.succ_mul])
  have hmiddle : Micros.sum? (UInt64.ofNat cut.buckets.size * duration) (duration / 2)
      = some (middle duration cut.buckets.size) :=
    Micros.ofNat?_eq (by rw [hstart, toNat_middle hi, UInt64.toNat_div]; rfl)
  simp only [checkedNext?, hindex, hproduct, hsum, hmiddle, Option.bind_eq_bind, Option.bind_some]
  rfl

/-- As many buckets are made as steps are taken. -/
theorem size_repeat_next (samples : Array (Sample α)) (duration : Micros) (n : ℕ) :
    (Nat.repeat (Cut.next samples duration) n {}).buckets.size = n := by
  have hlength := congrArg List.length (times_repeat_next samples duration n)
  rwa [List.length_map, List.length_map, List.length_range, Array.length_toList] at hlength

/-- Steps in a row do not overflow, as long as the spans end in time. -/
theorem repeat_checkedNext? {last : Micros} (samples : Array (Sample α)) {n : ℕ}
    (hn : n ≤ last.toNat / duration.toNat) :
    Nat.repeat (·.bind (checkedNext? samples duration)) n (some {})
      = some (Nat.repeat (Cut.next samples duration) n {}) := by
  induction n with
  | zero => rfl
  | succ n ih =>
      have hsize := size_repeat_next samples duration n
      rw [Nat.repeat, ih (Nat.le_of_succ_le hn), Option.bind_some,
        checkedNext?_eq (hsize.symm ▸ Nat.lt_of_succ_le hn)]
      rfl

/-- **Making buckets never overflows.** -/
theorem checkedBuckets?_eq (samples : List (Sample α)) (duration : Micros) :
    checkedBuckets? samples duration = some (buckets samples duration) := by
  unfold checkedBuckets? buckets
  split
  · rfl
  · cases samples.getLast? with
    | none => rfl
    | some last =>
        dsimp only
        cases Workspace.reserve (last.time / duration).toNat Bucket.bytes with
        | error e => rfl
        | ok _ =>
            dsimp only
            rw [repeat_checkedNext? samples.toArray (Nat.le_of_eq (UInt64.toNat_div _ _))]
            rfl

/-! ## Where the times lie -/

/-- The time of the `i`-th bucket lies in the `i`-th span, which ends in time, and the words that
tell the span are what they are as numbers. -/
structure Fits (duration last : Micros) (i : ℕ) (time : Micros) : Prop where
  toNat_start : (UInt64.ofNat i * duration).toNat = i * duration.toNat
  toNat_stop : (UInt64.ofNat i * duration + duration).toNat = i * duration.toNat + duration.toNat
  toNat_time : time.toNat = i * duration.toNat + duration.toNat / 2
  start_le : UInt64.ofNat i * duration ≤ time
  lt_stop : time < UInt64.ofNat i * duration + duration
  stop_le : UInt64.ofNat i * duration + duration ≤ last

/-- The times of buckets lie in their spans. -/
theorem fits_of_buckets {last : Sample α} {bs : List (Bucket α)}
    (h : buckets samples duration = .ok bs) (hlast : samples.getLast? = some last)
    (hduration : 0 < duration) {i : ℕ} {b : Bucket α} (hb : bs[i]? = some b) :
    Fits duration last.time i b.time := by
  have hi : i < last.time.toNat / duration.toNat := by
    rw [← length_buckets h hlast]
    exact (List.getElem?_eq_some_iff.mp hb).1
  have hpos : 0 < duration.toNat := UInt64.lt_iff_toNat_lt.mp hduration
  have hstart := toNat_start hi
  have hstop := toNat_stop hi
  have htime := time_buckets h hb
  have hend := stop_le hi
  rw [Nat.succ_mul] at hstop hend
  refine ⟨hstart, hstop, htime, ?_, ?_, ?_⟩
  · rw [UInt64.le_iff_toNat_le]
    omega
  · rw [UInt64.lt_iff_toNat_lt]
    omega
  · rw [UInt64.le_iff_toNat_le]
    omega

/-- There are buckets if there is room for them. -/
theorem exists_buckets {last : Sample α} (hlast : samples.getLast? = some last)
    (hduration : 0 < duration)
    (hroom : Workspace.reserve (last.time / duration).toNat Bucket.bytes = .ok ()) :
    ∃ bs, buckets samples duration = .ok bs :=
  ⟨_, buckets_eq_ok_iff.mpr ⟨last, hlast, (UInt64.ne_of_lt hduration).symm, hroom, rfl⟩⟩

/-- **Times of buckets never overflow.** For samples in any order, up to the latest time there is,
and every duration, if there is room for the buckets: the loop that makes them is the one that stops
at the first overflow. There is a bucket for every whole span before the time of the last sample; its
time lies in its span, which ends by the time of that sample, and start, end and time are what they
are as numbers. Buckets are strictly in order of time, so they can be searched, and no bucket that is
shown on a graph is later than its anchor. -/
theorem buckets_never_overflow {last : Sample α} (hlast : samples.getLast? = some last)
    (hduration : 0 < duration)
    (hroom : Workspace.reserve (last.time / duration).toNat Bucket.bytes = .ok ()) :
    ∃ bs, buckets samples duration = .ok bs ∧
      checkedBuckets? samples duration = some (.ok bs) ∧
      bs.length = last.time.toNat / duration.toNat ∧
      (∀ i b, bs[i]? = some b → Fits duration last.time i b.time) ∧
      (bs.Pairwise fun b c => b.time < c.time) ∧
      Ordered bs ∧
      ∀ anchor now, bs[anchor]? = some now → ∀ window,
        ∀ b ∈ LoadGraph.shown window bs anchor now.time,
          b.time ≤ now.time ∧ (now.time - b.time).toNat = now.time.toNat - b.time.toNat := by
  obtain ⟨bs, hbs⟩ := exists_buckets hlast hduration hroom
  have hchecked := checkedBuckets?_eq samples duration
  have hordered := pairwise_time_buckets hbs
  rw [hbs] at hchecked
  refine ⟨bs, hbs, hchecked, length_buckets hbs hlast,
    fun i b hb => fits_of_buckets hbs hlast hduration hb, hordered,
    hordered.imp fun {b c} hlt => UInt64.le_of_lt hlt, fun anchor now hnow window b hb => ?_⟩
  obtain ⟨i, -, hi, hplace⟩ := LoadGraph.mem_shown hb
  obtain ⟨c, hc, hle⟩ := LoadGraph.exists_bucket hordered hnow hi
  obtain rfl : b = c := Option.some.inj (hplace.symm.trans hc)
  exact ⟨hle, UInt64.toNat_sub_of_le _ _ hle⟩

/-- Samples that run back in time, but for the last one, which has the latest time there is. -/
def lateRide : List (Sample Float) :=
  [7, Micros.latest, 3, Micros.latest].map fun time => { Sample.zero with time := time }

/-- A third of all times: the last of three buckets ends with the latest one. -/
theorem buckets_of_lateRide :
    lateRide.getLast? = some { Sample.zero with time := Micros.latest } ∧
      (0 : Micros) < Micros.latest / 3 ∧
      Workspace.reserve (Micros.latest / (Micros.latest / 3)).toNat Bucket.bytes = .ok () ∧
      ∃ bs, buckets lateRide (Micros.latest / 3) = .ok bs ∧
        checkedBuckets? lateRide (Micros.latest / 3) = some (.ok bs) ∧ bs.length = 3 ∧
        ∀ b, bs[2]? = some b → 2 * (Micros.latest / 3) ≤ b.time ∧ b.time < Micros.latest := by
  have hlast : lateRide.getLast? = some { Sample.zero with time := Micros.latest } := rfl
  have hduration : (0 : Micros) < Micros.latest / 3 := by decide
  have hroom :
      Workspace.reserve (Micros.latest / (Micros.latest / 3)).toNat Bucket.bytes = .ok () := by
    decide
  obtain ⟨bs, hbs, hchecked, hlength, hfits, -⟩ := buckets_never_overflow hlast hduration hroom
  refine ⟨hlast, hduration, hroom, bs, hbs, hchecked, hlength, fun b hb => ?_⟩
  exact ⟨(hfits 2 b hb).start_le, UInt64.lt_of_lt_of_le (hfits 2 b hb).lt_stop (by decide)⟩

end Timeline

end RideHud
