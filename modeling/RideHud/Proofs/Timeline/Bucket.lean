import Mathlib.Data.List.Basic
import RideHud.Timeline.Bucket

/-!
# The times of buckets

The `i`-th bucket of a recording has its time in the middle of the `i`-th span, whatever samples
there are. Only spans that end by the time of the last sample have a bucket, so these times can be
told in microseconds and none is reached by going around.

* `length_buckets`, `time_buckets`: how many buckets there are, and what their times are;
* `pairwise_time_buckets`: buckets are in order of time, even if the samples are not.
-/

namespace RideHud.Timeline

variable {α : Type} [Scalar α] {samples : List (Sample α)} {duration : Micros}
  {bs : List (Bucket α)}

/-- The middle of a span. -/
def middle (duration : Micros) (i : ℕ) : Micros := UInt64.ofNat i * duration + duration / 2

/-- A bucket has the time it is made for. -/
theorem time_following (previous : Option (Bucket α)) (time : Micros) (inside : List (Sample α)) :
    (Bucket.following previous time inside).time = time := by
  unfold Bucket.following
  split
  · cases previous <;> rfl
  · rfl

/-- Every step makes one more bucket, for the middle of the next span. -/
theorem times_repeat_next (samples : Array (Sample α)) (duration : Micros) (n : ℕ) :
    (Nat.repeat (Cut.next samples duration) n {}).buckets.toList.map Bucket.time
      = (List.range n).map (middle duration) := by
  induction n with
  | zero => rfl
  | succ n ih =>
      have hsize : (Nat.repeat (Cut.next samples duration) n {}).buckets.size = n := by
        have hlen := congrArg List.length ih
        rwa [List.length_map, List.length_map, List.length_range, Array.length_toList] at hlen
      rw [Nat.repeat, Cut.next, Array.toList_push, List.map_append, ih, List.range_succ,
        List.map_append, List.map_singleton, List.map_singleton, time_following, hsize, middle]

/-- What it takes for a recording to have buckets. -/
theorem buckets_eq_ok_iff : buckets samples duration = .ok bs ↔
    ∃ last, samples.getLast? = some last ∧ duration ≠ 0 ∧
      Workspace.reserve (last.time / duration).toNat Bucket.bytes = .ok () ∧
      (Nat.repeat (Cut.next samples.toArray duration) (last.time / duration).toNat {}).buckets.toList
        = bs := by
  unfold buckets
  by_cases hduration : duration = 0
  · simp [hduration]
  rw [if_neg hduration]
  cases samples.getLast? with
  | none => simp
  | some last =>
      dsimp only
      cases hroom : Workspace.reserve (last.time / duration).toNat Bucket.bytes with
      | error e => simp [hroom, -UInt64.toNat_div]
      | ok u => simp [hroom, hduration, -UInt64.toNat_div]

/-- The times of buckets are the middles of their spans. -/
theorem buckets_eq_ok (h : buckets samples duration = .ok bs) :
    ∃ last, samples.getLast? = some last ∧ duration ≠ 0 ∧
      bs.map Bucket.time = (List.range (last.time / duration).toNat).map (middle duration) := by
  obtain ⟨last, hlast, hduration, -, rfl⟩ := buckets_eq_ok_iff.mp h
  exact ⟨last, hlast, hduration, times_repeat_next samples.toArray duration _⟩

/-- There are as many buckets as whole spans before the time of the last sample. -/
theorem length_buckets {last : Sample α} (h : buckets samples duration = .ok bs)
    (hlast : samples.getLast? = some last) : bs.length = last.time.toNat / duration.toNat := by
  obtain ⟨last', hlast', -, htimes⟩ := buckets_eq_ok h
  obtain rfl : last = last' := Option.some.inj (hlast.symm.trans hlast')
  have hlen := congrArg List.length htimes
  rwa [List.length_map, List.length_map, List.length_range, UInt64.toNat_div] at hlen

/-- A span that has a bucket ends by the time of the last sample. -/
theorem stop_le {last : Micros} {i : ℕ} (hi : i < last.toNat / duration.toNat) :
    (i + 1) * duration.toNat ≤ last.toNat :=
  Nat.le_trans (Nat.mul_le_mul_right _ hi) (Nat.div_mul_le_self _ _)

/-- The start of a span that ends in time is not reached by going around. -/
theorem toNat_start {last : Micros} {i : ℕ} (hi : i < last.toNat / duration.toNat) :
    (UInt64.ofNat i * duration).toNat = i * duration.toNat := by
  have hstop := stop_le hi
  have hlast := last.toNat_lt
  have hpos : 0 < duration.toNat := by
    by_contra hzero
    rw [Nat.eq_zero_of_not_pos hzero, Nat.div_zero] at hi
    exact Nat.not_lt_zero _ hi
  have hstart : i ≤ i * duration.toNat := Nat.le_mul_of_pos_right _ hpos
  rw [Nat.add_mul, Nat.one_mul] at hstop
  rw [UInt64.toNat_mul, UInt64.toNat_ofNat_of_lt' (by rw [UInt64.size]; omega)]
  exact Nat.mod_eq_of_lt (by omega)

/-- Neither is its end. -/
theorem toNat_stop {last : Micros} {i : ℕ} (hi : i < last.toNat / duration.toNat) :
    (UInt64.ofNat i * duration + duration).toNat = (i + 1) * duration.toNat := by
  have hstop := stop_le hi
  have hlast := last.toNat_lt
  rw [Nat.add_mul, Nat.one_mul] at hstop ⊢
  rw [UInt64.toNat_add, toNat_start hi]
  exact Nat.mod_eq_of_lt (by omega)

/-- The middle of a span that ends in time is not reached by going around. -/
theorem toNat_middle {last : Micros} {i : ℕ} (hi : i < last.toNat / duration.toNat) :
    (middle duration i).toNat = i * duration.toNat + duration.toNat / 2 := by
  have hstop := stop_le hi
  have hlast := last.toNat_lt
  have hhalf : duration.toNat / 2 ≤ duration.toNat := Nat.div_le_self _ _
  rw [Nat.add_mul, Nat.one_mul] at hstop
  have hbig : i * duration.toNat + duration.toNat / 2 < 2 ^ 64 := by omega
  rw [middle, UInt64.toNat_add, toNat_start hi, UInt64.toNat_div]
  exact Nat.mod_eq_of_lt hbig

/-- The time of a bucket, as a number. -/
theorem time_buckets (h : buckets samples duration = .ok bs) {i : ℕ} {b : Bucket α}
    (hb : bs[i]? = some b) : b.time.toNat = i * duration.toNat + duration.toNat / 2 := by
  obtain ⟨last, hlast, -, htimes⟩ := buckets_eq_ok h
  have hi : i < last.time.toNat / duration.toNat := by
    rw [← length_buckets h hlast]
    exact (List.getElem?_eq_some_iff.mp hb).1
  have hget := congrArg (·[i]?) htimes
  simp only [List.getElem?_map, hb, Option.map_some] at hget
  rw [List.getElem?_range (by rwa [UInt64.toNat_div]), Option.map_some] at hget
  rw [Option.some.inj hget, toNat_middle hi]

/-- **Buckets are in order of time**, whether or not the samples are. -/
theorem pairwise_time_buckets (h : buckets samples duration = .ok bs) :
    bs.Pairwise fun b c => b.time < c.time := by
  obtain ⟨-, -, hduration, -⟩ := buckets_eq_ok h
  have hpos : 0 < duration.toNat :=
    Nat.pos_of_ne_zero fun hzero => hduration (UInt64.toNat_inj.mp hzero)
  rw [List.pairwise_iff_getElem]
  intro i j hi hj hij
  rw [UInt64.lt_iff_toNat_lt, time_buckets h (List.getElem?_eq_getElem hi),
    time_buckets h (List.getElem?_eq_getElem hj)]
  have hlt : i * duration.toNat < j * duration.toNat := Nat.mul_lt_mul_of_pos_right hij hpos
  omega

end RideHud.Timeline
