import Mathlib.Data.List.Basic
import RideHud.Proofs.Timeline.Bucket
import RideHud.Proofs.Timeline.Order

/-!
# Spans of a recording

The `i`-th span of a recording holds the samples of the `i`-th stretch of time of a given duration.
A recording in order is its spans one after the other, so the place where a bisection cuts it is the
number of samples of all spans before.

* `bisect_eq`: where a bisection ends;
* `before_append_span`, `extract_span`: a recording in order is cut where spans end;
* `flatMap_span`, `existsUnique_mem_span`: every sample is in one span.
-/

namespace RideHud.Timeline

/-! ## Cutting a list in two -/

/-- A list is cut by a condition that holds of a first part of it. -/
theorem filter_append_filter_not {β : Type} {p : β → Bool} {l : List β}
    (h : l.Pairwise fun a b => p b = true → p a = true) :
    l.filter p ++ l.filter (fun a => !p a) = l := by
  induction l with
  | nil => rfl
  | cons a l ih =>
      obtain ⟨hhead, htail⟩ := List.pairwise_cons.mp h
      by_cases ha : p a = true
      · rw [List.filter_cons_of_pos ha, List.filter_cons_of_neg (by simp [ha]), List.cons_append,
          ih htail]
      · -- Nothing behind `a` is in the first part.
        have hnone : l.filter p = [] :=
          List.filter_eq_nil_iff.mpr fun b hb hpb => ha (hhead b hb hpb)
        have hall : l.filter (fun b => !p b) = l := by
          rw [← ih htail, hnone, List.nil_append, List.filter_filter]
          simp
        rw [List.filter_cons_of_neg ha, List.filter_cons_of_pos (by simpa using ha), hnone, hall,
          List.nil_append]

/-- A place is in the first part if its element meets the condition. -/
theorem lt_length_filter_iff {β : Type} {p : β → Bool} {l : List β}
    (h : l.Pairwise fun a b => p b = true → p a = true) {i : ℕ} {a : β} (ha : l[i]? = some a) :
    i < (l.filter p).length ↔ p a = true := by
  rw [← filter_append_filter_not h] at ha
  constructor
  · intro hi
    rw [List.getElem?_append_left hi] at ha
    exact (List.mem_filter.mp (List.mem_of_getElem? ha)).2
  · intro hp
    by_contra hi
    rw [List.getElem?_append_right (Nat.le_of_not_lt hi)] at ha
    have hnot := (List.mem_filter.mp (List.mem_of_getElem? ha)).2
    rw [hp] at hnot
    exact Bool.false_ne_true hnot

/-- **A bisection finds where a condition ends** that holds of a first part. -/
theorem bisect_eq {β : Type} {p : β → Bool} {items : Array β} {base size k : ℕ}
    (hlow : base ≤ k) (hhigh : k ≤ base + size) (hsize : base + size ≤ items.size)
    (hend : ∀ i a, items[i]? = some a → (i < k ↔ p a = true)) :
    bisect p items base size = k := by
  induction size using Nat.strong_induction_on generalizing base with
  | _ size ih =>
      have hany : ∀ i, i < items.size → (items[i]?.any p = true ↔ i < k) := by
        intro i hi
        have hget := Array.getElem?_eq_getElem hi
        rw [hget, Option.any_some, hend i _ hget]
      rw [bisect]
      split
      · next hmany =>
          have hhalf : size / 2 < size := Nat.div_lt_self (by omega) (by omega)
          have hmiddle := hany (base + size / 2) (by omega)
          dsimp only
          split
          · next htrue =>
              have hlt := hmiddle.mp htrue
              exact ih _ (by omega) (by omega) (by omega) (by omega)
          · next hfalse =>
              have hge := Nat.le_of_not_lt (mt hmiddle.mpr hfalse)
              exact ih _ (by omega) hlow (by omega) (by omega)
      · next hfew =>
          split
          · next hzero => omega
          · next hone =>
              have hlast := hany base (by omega)
              split
              · next htrue =>
                  have hlt := hlast.mp htrue
                  omega
              · next hfalse =>
                  have hge := Nat.le_of_not_lt (mt hlast.mpr hfalse)
                  omega

/-! ## Spans -/

section

variable {α : Type} {samples : List (Sample α)} {duration : Micros} {i : ℕ}

/-- The samples before a time, which is given as a number of microseconds. -/
def before (samples : List (Sample α)) (t : ℕ) : List (Sample α) :=
  samples.filter fun s => decide (s.time.toNat < t)

/-- The samples of the `i`-th span of a duration. -/
def span (samples : List (Sample α)) (duration : Micros) (i : ℕ) : List (Sample α) :=
  samples.filter fun s =>
    decide (i * duration.toNat ≤ s.time.toNat ∧ s.time.toNat < (i + 1) * duration.toNat)

theorem mem_span {s : Sample α} : s ∈ span samples duration i ↔
    s ∈ samples ∧ i * duration.toNat ≤ s.time.toNat ∧ s.time.toNat < (i + 1) * duration.toNat := by
  rw [span, List.mem_filter, decide_eq_true_iff]

/-- The samples before a time are a first part of a recording in order. -/
theorem Ordered.isFirstPart (h : Ordered samples) (t : ℕ) :
    samples.Pairwise fun r s => decide (s.time.toNat < t) = true →
      decide (r.time.toNat < t) = true := by
  refine h.imp fun {r s} hle hs => ?_
  have hle' : r.time.toNat ≤ s.time.toNat := UInt64.le_iff_toNat_le.mp hle
  rw [decide_eq_true_iff] at hs ⊢
  omega

theorem Ordered.before_append (h : Ordered samples) (t : ℕ) :
    before samples t ++ samples.filter (fun s => !decide (s.time.toNat < t)) = samples :=
  filter_append_filter_not (h.isFirstPart t)

/-- **A span lies between the samples before its start and those from its end on.** -/
theorem before_append_span (h : Ordered samples) (i : ℕ) :
    before samples (i * duration.toNat) ++ span samples duration i
      = before samples ((i + 1) * duration.toNat) := by
  have hmul : i * duration.toNat ≤ (i + 1) * duration.toNat := Nat.mul_le_mul_right _ (by omega)
  conv_rhs => rw [before, ← h.before_append (i * duration.toNat), List.filter_append]
  congr 1
  · rw [before, List.filter_filter]
    refine List.filter_congr fun s _ => ?_
    rw [← Bool.decide_and]
    exact decide_eq_decide.mpr ⟨fun hlt => ⟨by omega, hlt⟩, And.right⟩
  · rw [span, List.filter_filter]
    refine List.filter_congr fun s _ => ?_
    rw [← decide_not, ← Bool.decide_and]
    exact decide_eq_decide.mpr (by omega)

/-- A bisection of what is left of a recording in order ends with the samples before a time. -/
theorem bisect_before (h : Ordered samples) {t : ℕ} {stop : Micros} (ht : t ≤ stop.toNat) :
    bisect (fun s => decide (s.time < stop)) samples.toArray (before samples t).length
      (samples.length - (before samples t).length) = (before samples stop.toNat).length := by
  have hle : (before samples t).length ≤ (before samples stop.toNat).length := by
    rw [before, before, ← List.countP_eq_length_filter, ← List.countP_eq_length_filter]
    refine List.countP_mono_left fun s _ hs => ?_
    rw [decide_eq_true_iff] at hs ⊢
    exact Nat.lt_of_lt_of_le hs ht
  have htotal : (before samples stop.toNat).length ≤ samples.length := List.length_filter_le _ _
  refine bisect_eq hle (by omega) (by rw [List.size_toArray]; omega) fun i s hs => ?_
  rw [List.getElem?_toArray] at hs
  rw [before, lt_length_filter_iff (h.isFirstPart _) hs, decide_eq_true_iff, decide_eq_true_iff,
    UInt64.lt_iff_toNat_lt]

/-- A span is what lies between the numbers of samples before its start and before its end. -/
theorem extract_span (h : Ordered samples) (i : ℕ) :
    samples.extract (before samples (i * duration.toNat)).length
      (before samples ((i + 1) * duration.toNat)).length = span samples duration i := by
  obtain ⟨later, hlater⟩ : ∃ later, samples
      = before samples (i * duration.toNat) ++ (span samples duration i ++ later) :=
    ⟨_, by rw [← List.append_assoc, before_append_span h, h.before_append]⟩
  have hdrop := congrArg (List.drop (before samples (i * duration.toNat)).length) hlater
  rw [List.drop_left] at hdrop
  rw [List.extract_eq_take_drop, hdrop, ← before_append_span h, List.length_append,
    Nat.add_sub_cancel_left, List.take_left]

/-- A recording is its first spans one after the other, and what comes later. -/
theorem flatMap_span (h : Ordered samples) (n : ℕ) :
    (List.range n).flatMap (span samples duration) = before samples (n * duration.toNat) := by
  induction n with
  | zero => simp [before]
  | succ n ih =>
      rw [List.range_succ, List.flatMap_append, ih, List.flatMap_singleton, before_append_span h]

/-- A sample before the end of the last span is in one span alone. -/
theorem existsUnique_mem_span {n : ℕ} {s : Sample α} (hs : s ∈ samples)
    (hlt : s.time.toNat < n * duration.toNat) : ∃! i, i < n ∧ s ∈ span samples duration i := by
  have hpos : 0 < duration.toNat := Nat.pos_of_mul_pos_left (Nat.zero_lt_of_lt hlt)
  refine ⟨s.time.toNat / duration.toNat, ⟨?_, ?_⟩, ?_⟩
  · exact (Nat.div_lt_iff_lt_mul hpos).mpr hlt
  · exact mem_span.mpr ⟨hs, Nat.div_mul_le_self _ _,
      (Nat.div_lt_iff_lt_mul hpos).mp (Nat.lt_succ_self _)⟩
  · rintro i ⟨-, hi⟩
    obtain ⟨-, hstart, hstop⟩ := mem_span.mp hi
    exact (Nat.div_eq_of_lt_le hstart hstop).symm

end

end RideHud.Timeline
