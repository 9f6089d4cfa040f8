import Mathlib.Data.List.Basic
import RideHud.Timeline.Lookup

/-!
# What a search finds

A search from a hint finds the first later record from there on. If no record before the hint is
later (`Passed`), that is the first later record of all, so the hint makes no difference.

* `lookup_eq_ok_iff`: when a search succeeds, and what it finds;
* `lookup_eq_lookup_zero`: hints that have been passed make no difference;
* `Passed.lookup`: a place that was found has been passed.
-/

namespace RideHud.Timeline

/-! ## Scanning -/

/-- The first record from `start` on that has a property, told by its place in the whole list. -/
theorem findIdx?_drop_eq_some_iff {β : Type} {records : List β} {p : β → Bool} {start k : ℕ} :
    (records.drop start).findIdx? p = some k ↔
      (∃ r, records[start + k]? = some r ∧ p r = true) ∧
        ∀ i r, start ≤ i → i < start + k → records[i]? = some r → p r = false := by
  rw [List.findIdx?_eq_some_iff_getElem]
  constructor
  · rintro ⟨hk, hp, hbefore⟩
    rw [List.length_drop] at hk
    rw [List.getElem_drop] at hp
    refine ⟨⟨_, List.getElem?_eq_getElem (by omega), hp⟩, fun i r hstart hi hr => ?_⟩
    obtain ⟨hlt, rfl⟩ := List.getElem?_eq_some_iff.mp hr
    have hnot := hbefore (i - start) (by omega)
    simp only [List.getElem_drop, Nat.add_sub_cancel' hstart] at hnot
    simpa using hnot
  · rintro ⟨⟨r, hr, hp⟩, hbefore⟩
    obtain ⟨hlt, rfl⟩ := List.getElem?_eq_some_iff.mp hr
    refine ⟨by rw [List.length_drop]; omega, by rwa [List.getElem_drop], fun j hj => ?_⟩
    rw [List.getElem_drop, hbefore (start + j) _ (by omega) (by omega)
      (List.getElem?_eq_getElem (by omega))]
    exact Bool.false_ne_true

/-- The scan from `start` on, with what it finds told by its place in the whole list. -/
theorem map_findIdx?_drop_eq_some_iff {β : Type} {records : List β} {p : β → Bool}
    {start place : ℕ} :
    ((records.drop start).findIdx? p).map (start + ·) = some place ↔
      start ≤ place ∧ (∃ r, records[place]? = some r ∧ p r = true) ∧
        ∀ i r, start ≤ i → i < place → records[i]? = some r → p r = false := by
  rw [Option.map_eq_some_iff]
  constructor
  · rintro ⟨k, hscan, rfl⟩
    exact ⟨Nat.le_add_right _ _, findIdx?_drop_eq_some_iff.mp hscan⟩
  · rintro ⟨hle, hfirst⟩
    rw [← Nat.add_sub_cancel' hle] at hfirst
    exact ⟨place - start, findIdx?_drop_eq_some_iff.mpr hfirst, Nat.add_sub_cancel' hle⟩

variable {β : Type} [Stamped β] {records : List β} {hint place : ℕ} {target time : Micros}

/-! ## Success -/

/-- **A search succeeds** if the hint is a place and the last record is later, and it finds the
first later record from the hint on, the very first record apart. -/
theorem lookup_eq_ok_iff :
    lookup records hint target = .ok place ↔
      hint < records.length ∧ (∃ last, records.getLast? = some last ∧ target < Stamped.time last) ∧
        max hint 1 ≤ place ∧ (∃ r, records[place]? = some r ∧ target < Stamped.time r) ∧
        ∀ i r, max hint 1 ≤ i → i < place → records[i]? = some r → Stamped.time r ≤ target := by
  unfold lookup
  cases hlast : records.getLast? with
  | none => simp
  | some last =>
      simp only [Option.some.injEq, exists_eq_left']
      by_cases hhint : records.length ≤ hint
      · rw [if_pos hhint]
        exact ⟨nofun, fun h => absurd h.1 (by omega)⟩
      rw [if_neg hhint]
      by_cases hpast : Stamped.time last ≤ target
      · rw [if_pos hpast]
        exact ⟨nofun, fun h => absurd h.2.1 (UInt64.not_lt.mpr hpast)⟩
      rw [if_neg hpast]
      have hguard : hint < records.length ∧ target < Stamped.time last :=
        ⟨Nat.lt_of_not_le hhint, UInt64.not_le.mp hpast⟩
      -- What is left is the scan, told by places in the whole list.
      have hscan : max hint 1 ≤ place ∧ (∃ r, records[place]? = some r ∧ target < Stamped.time r) ∧
          (∀ i r, max hint 1 ≤ i → i < place → records[i]? = some r → Stamped.time r ≤ target) ↔
          ((records.drop (max hint 1)).findIdx? fun r => target < Stamped.time r).map
            (max hint 1 + ·) = some place := by
        rw [map_findIdx?_drop_eq_some_iff]
        simp only [decide_eq_true_eq, decide_eq_false_iff_not, UInt64.not_lt]
      rw [hscan]
      cases (records.drop (max hint 1)).findIdx? fun r => target < Stamped.time r with
      | none => exact ⟨nofun, fun h => nomatch h.2.2⟩
      | some k => simp [hguard.1, hguard.2]

/-- A search from a place succeeds if the last record is later and there is more than one. -/
theorem exists_lookup_eq_ok {last : β} (hhint : hint < records.length) (htwo : 1 < records.length)
    (hlast : records.getLast? = some last) (hlater : target < Stamped.time last) :
    ∃ place, lookup records hint target = .ok place := by
  have hget : records[records.length - 1]? = some last := by
    rw [← List.getLast?_eq_getElem?, hlast]
  have hscan : (records.drop (max hint 1)).findIdx? (fun r => target < Stamped.time r) ≠ none := by
    rw [Ne, List.findIdx?_eq_none_iff]
    intro hnone
    have hmem : last ∈ records.drop (max hint 1) :=
      List.mem_iff_getElem?.mpr ⟨records.length - 1 - max hint 1, by
        rwa [List.getElem?_drop, Nat.add_sub_cancel' (by omega)]⟩
    simpa [hlater] using hnone last hmem
  obtain ⟨k, hk⟩ := Option.ne_none_iff_exists'.mp hscan
  refine ⟨max hint 1 + k, ?_⟩
  rw [lookup, hlast]
  simp only [if_neg (Nat.not_le.mpr hhint), if_neg (UInt64.not_le.mpr hlater), hk]

/-! ## Hints -/

/-- No record before `place` is later than `time`, the very first apart. -/
def Passed (records : List β) (place : ℕ) (time : Micros) : Prop :=
  ∀ i r, 1 ≤ i → i < place → records[i]? = some r → Stamped.time r ≤ time

theorem passed_zero (records : List β) (time : Micros) : Passed records 0 time :=
  fun _ _ _ hi => absurd hi (Nat.not_lt_zero _)

/-- What has been passed stays so as time goes on. -/
theorem Passed.mono {time' : Micros} (h : Passed records place time) (hle : time ≤ time') :
    Passed records place time' :=
  fun i r hpos hi hr => UInt64.le_trans (h i r hpos hi hr) hle

/-- Fewer places have been passed too. -/
theorem Passed.anti {place' : ℕ} (h : Passed records place time) (hle : place' ≤ place) :
    Passed records place' time :=
  fun i r hpos hi hr => h i r hpos (Nat.lt_of_lt_of_le hi hle) hr

/-- **A place that was found has been passed**, if the hint had been. -/
theorem Passed.lookup (h : Passed records hint target)
    (hfound : lookup records hint target = .ok place) : Passed records place target := by
  obtain ⟨-, -, -, -, hbefore⟩ := lookup_eq_ok_iff.mp hfound
  intro i r hpos hi hr
  rcases Nat.lt_or_ge i hint with hlt | hge
  · exact h i r hpos hlt hr
  · exact hbefore i r (by omega) hi hr

/-- A scan from a hint that has been passed finds what a scan from the front finds. -/
theorem Passed.findIdx?_drop (h : Passed records hint target) :
    ((records.drop 1).findIdx? fun r => target < Stamped.time r).map (1 + ·)
      = ((records.drop (max hint 1)).findIdx? fun r => target < Stamped.time r).map
          (max hint 1 + ·) := by
  apply Option.ext
  intro place
  rw [map_findIdx?_drop_eq_some_iff, map_findIdx?_drop_eq_some_iff]
  simp only [decide_eq_true_eq, decide_eq_false_iff_not, UInt64.not_lt]
  constructor
  · rintro ⟨hpos, ⟨r, hr, hlater⟩, hbefore⟩
    -- The hint is not behind what was found, or that would not be later.
    have hle : hint ≤ place := by
      by_contra hlt
      exact absurd (h place r hpos (by omega) hr) (UInt64.not_le.mpr hlater)
    exact ⟨by omega, ⟨r, hr, hlater⟩, fun i r' hi hi' hr' => hbefore i r' (by omega) hi' hr'⟩
  · rintro ⟨hle, hlater, hbefore⟩
    refine ⟨by omega, hlater, fun i r hpos hi hr => ?_⟩
    rcases Nat.lt_or_ge i hint with hlt | hge
    · exact h i r hpos hlt hr
    · exact hbefore i r (by omega) hi hr

/-- **Hints that have been passed make no difference**, to what is found or to why nothing is. -/
theorem lookup_eq_lookup_zero (hhint : hint < records.length) (h : Passed records hint target) :
    lookup records hint target = lookup records 0 target := by
  have hscan := h.findIdx?_drop
  unfold lookup
  cases records.getLast? with
  | none => rfl
  | some last =>
      simp only [if_neg (Nat.not_le.mpr hhint), if_neg (show ¬records.length ≤ 0 by omega)]
      congr 1
      rw [Nat.max_eq_right (Nat.zero_le 1)]
      revert hscan
      cases (records.drop 1).findIdx? fun r => target < Stamped.time r <;>
        cases (records.drop (max hint 1)).findIdx? fun r => target < Stamped.time r <;>
          simp +contextual

end RideHud.Timeline
