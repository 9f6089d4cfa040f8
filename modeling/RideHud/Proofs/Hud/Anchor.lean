import RideHud.Hud.LoadGraph
import RideHud.Proofs.Timeline.Bucket
import RideHud.Proofs.Timeline.Lookup

/-!
# Where the graph ends

The graph ends at its anchor, which the buckets and the time alone tell (`IsAnchor`). The search for
it starts from where the last one ended, be that a bucket that was found or the last one because the
time was past them all; either way no bucket before it is later (`Resumes`), so the answer is the
same from every cursor that searches have left (`exists_isAnchor`). What is shown are buckets up to
the anchor (`mem_shown`), none of which is later (`exists_bucket`).
-/

namespace RideHud.LoadGraph

open Timeline

variable {α : Type} {buckets : List (Bucket α)} {now : Micros} {cursor : Cursor} {anchor : ℕ}

/-! ## Anchors -/

/-- `place` is that of the first bucket later than `now`, the very first one apart, or else of the
last bucket. -/
structure IsAnchor (buckets : List (Bucket α)) (now : Micros) (place : ℕ) : Prop where
  lt : place < buckets.length
  passed : Passed buckets place now
  ends : (1 ≤ place ∧ ∃ b, buckets[place]? = some b ∧ now < b.time) ∨
    place + 1 = buckets.length ∧ ∀ i b, 1 ≤ i → buckets[i]? = some b → b.time ≤ now

/-- No anchor lies behind another one. -/
theorem IsAnchor.le {place place' : ℕ} (h : IsAnchor buckets now place)
    (h' : IsAnchor buckets now place') : place ≤ place' := by
  by_contra hlt
  rcases h'.ends with ⟨hpos, b, hb, hlater⟩ | ⟨hlast, -⟩
  · exact UInt64.not_lt.mpr (h.passed place' b hpos (by omega) hb) hlater
  · have hplace := h.lt
    omega

/-- There is one anchor. -/
theorem IsAnchor.unique {place place' : ℕ} (h : IsAnchor buckets now place)
    (h' : IsAnchor buckets now place') : place = place' :=
  Nat.le_antisymm (h.le h') (h'.le h)

/-! ## One search -/

/-- A search can start from a cursor: no bucket before it is later than its time. -/
def Resumes (buckets : List (Bucket α)) (cursor : Cursor) : Prop :=
  Passed buckets cursor.place cursor.time

/-- The cursor that no search has moved. -/
theorem resumes_start (buckets : List (Bucket α)) : Resumes buckets {} := passed_zero _ _

/-- A search can start from where one has ended. -/
theorem IsAnchor.resumes {place : ℕ} (h : IsAnchor buckets now place) :
    Resumes buckets ⟨now, place⟩ := h.passed

/-- The hint that a cursor gives has been passed. -/
theorem Resumes.hint (h : Resumes buckets cursor) (now : Micros) :
    Passed buckets (min (if now < cursor.time then 0 else cursor.place) (buckets.length - 1))
      now := by
  split
  · rw [Nat.zero_min]
    exact passed_zero _ _
  · next hle => exact (h.mono (UInt64.not_lt.mp hle)).anti (Nat.min_le_left _ _)

/-- If the last of ordered buckets is not later than a time, none is. -/
theorem time_le_of_last {last : Bucket α} (hordered : buckets.Pairwise fun b c => b.time < c.time)
    (hlast : buckets.getLast? = some last) (hpast : last.time ≤ now) {i : ℕ} {b : Bucket α}
    (hb : buckets[i]? = some b) : b.time ≤ now := by
  rw [List.getLast?_eq_getElem?] at hlast
  obtain ⟨hi, rfl⟩ := List.getElem?_eq_some_iff.mp hb
  obtain ⟨hend, rfl⟩ := List.getElem?_eq_some_iff.mp hlast
  rcases Nat.lt_or_ge i (buckets.length - 1) with hlt | hge
  · have htime := List.pairwise_iff_getElem.mp hordered i _ hi hend hlt
    exact UInt64.le_of_lt (UInt64.lt_of_lt_of_le htime hpast)
  · obtain rfl : i = buckets.length - 1 := by omega
    exact hpast

/-- **A search ends at the anchor**, wherever it may start from. -/
theorem exists_isAnchor (hordered : buckets.Pairwise fun b c => b.time < c.time)
    (hne : buckets ≠ []) (h : Resumes buckets cursor) (now : Micros) :
    ∃ place, anchor? buckets cursor now = some place ∧ IsAnchor buckets now place := by
  have hpos : 0 < buckets.length := List.length_pos_of_ne_nil hne
  have hpassed := h.hint now
  obtain ⟨last, hlast⟩ : ∃ last, buckets.getLast? = some last :=
    ⟨_, List.getLast?_eq_some_getLast hne⟩
  unfold anchor?
  rw [if_neg (by simpa using hne)]
  dsimp only
  generalize hhint : min (if now < cursor.time then 0 else cursor.place) (buckets.length - 1) = hint
    at hpassed ⊢
  have hlt : hint < buckets.length := by omega
  cases hfound : lookup buckets hint now with
  | ok place =>
      obtain ⟨-, -, hle, ⟨b, hb, hlater⟩, -⟩ := lookup_eq_ok_iff.mp hfound
      exact ⟨place, rfl, (List.getElem?_eq_some_iff.mp hb).1, hpassed.lookup hfound,
        .inl ⟨by omega, b, hb, hlater⟩⟩
  | error e =>
      -- Without a later bucket, or with the very first one alone, it is the last bucket.
      have hnone : ∀ i b, 1 ≤ i → buckets[i]? = some b → b.time ≤ now := by
        intro i b hi hb
        by_contra hlater
        have htwo : 1 < buckets.length :=
          Nat.lt_of_le_of_lt hi (List.getElem?_eq_some_iff.mp hb).1
        have hlast' : now < last.time := by
          by_contra hpast
          exact hlater (time_le_of_last hordered hlast (UInt64.not_lt.mp hpast) hb)
        obtain ⟨place, hok⟩ := exists_lookup_eq_ok hlt htwo hlast hlast'
        rw [hok] at hfound
        cases hfound
      exact ⟨buckets.length - 1, rfl, by omega, fun i b hi _ hb => hnone i b hi hb,
        .inr ⟨by omega, hnone⟩⟩

/-- There is no anchor without buckets. -/
theorem anchor?_nil (cursor : Cursor) (now : Micros) :
    anchor? ([] : List (Bucket α)) cursor now = none := rfl

/-- The anchor is the place of a bucket, wherever the search started from. -/
theorem anchor_lt (h : anchor? buckets cursor now = some anchor) : anchor < buckets.length := by
  unfold anchor? at h
  split at h
  · cases h
  · next hne =>
      dsimp only at h
      split at h
      · next place hfound =>
          cases h
          obtain ⟨-, -, -, ⟨b, hb, -⟩, -⟩ := lookup_eq_ok_iff.mp hfound
          exact (List.getElem?_eq_some_iff.mp hb).1
      · -- The search has failed, so it is the last bucket.
        cases h
        have hpos : 0 < buckets.length := List.length_pos_of_ne_nil (by simpa using hne)
        omega

/-- There is an anchor if there are buckets. -/
theorem exists_anchor (hne : buckets ≠ []) (cursor : Cursor) (now : Micros) :
    ∃ anchor, anchor? buckets cursor now = some anchor := by
  unfold anchor?
  rw [if_neg (by simpa using hne)]
  dsimp only
  split <;> exact ⟨_, rfl⟩

/-! ## What is shown -/

/-- What is shown are buckets up to the anchor, without the very first one. -/
theorem mem_shown {window : Micros} {b : Bucket α} (h : b ∈ shown window buckets anchor now) :
    ∃ i, 1 ≤ i ∧ i ≤ anchor ∧ buckets[i]? = some b := by
  have hmem : b ∈ (buckets.take (anchor + 1)).drop 1 :=
    List.mem_reverse.mp ((List.takeWhile_sublist _).subset h)
  obtain ⟨i, hi⟩ := List.mem_iff_getElem?.mp hmem
  rw [List.getElem?_drop, List.getElem?_take] at hi
  split at hi
  · exact ⟨1 + i, by omega, by omega, hi⟩
  · cases hi

/-- Up to a bucket of an ordered graph there are buckets that are not later. -/
theorem exists_bucket (hordered : buckets.Pairwise fun b c => b.time < c.time) {last : Bucket α}
    (hlast : buckets[anchor]? = some last) {i : ℕ} (hi : i ≤ anchor) :
    ∃ b, buckets[i]? = some b ∧ b.time ≤ last.time := by
  obtain ⟨hanchor, rfl⟩ := List.getElem?_eq_some_iff.mp hlast
  have hlt : i < buckets.length := Nat.lt_of_le_of_lt hi hanchor
  refine ⟨buckets[i], List.getElem?_eq_getElem hlt, ?_⟩
  rcases Nat.lt_or_eq_of_le hi with hbefore | rfl
  · exact UInt64.le_of_lt (List.pairwise_iff_getElem.mp hordered i anchor hlt hanchor hbefore)
  · exact UInt64.le_refl _

/-! ## Searches in a row -/

/-- The cursor after searches for some times. -/
def searched (buckets : List (Bucket α)) : Cursor → List Micros → Cursor
  | cursor, [] => cursor
  | cursor, now :: times =>
    searched buckets
      (match anchor? buckets cursor now with
        | some place => ⟨now, place⟩
        | none => cursor)
      times

/-- Searches leave a cursor from which a search can start. -/
theorem Resumes.searched (hordered : buckets.Pairwise fun b c => b.time < c.time)
    (h : Resumes buckets cursor) (times : List Micros) :
    Resumes buckets (searched buckets cursor times) := by
  induction times generalizing cursor with
  | nil => exact h
  | cons now times ih =>
      rw [LoadGraph.searched]
      by_cases hne : buckets = []
      · subst hne
        exact ih h
      · obtain ⟨place, hplace, hanchor⟩ := exists_isAnchor hordered hne h now
        rw [hplace]
        exact ih hanchor.resumes

end RideHud.LoadGraph
