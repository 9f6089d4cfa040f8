import RideHud.Proofs.Timeline.Lookup

/-!
# Looking up times that do not decrease

Times can be looked up one after the other, each from the place that was found last (`lookups`). If
they do not decrease, the hint stays a place and has always been passed (`Ready`), so each answer is
the one from the front, failures included. The places that are found do not decrease anyway, as
none lies before its hint.

* `Ready.next`: what one lookup preserves;
* `lookups_eq_map`: so all answers are those from the front;
* `pairwise_found`: the places that are found do not decrease;
* `lookups_forget_hints`: both together, for the run from the front.
-/

namespace RideHud.Timeline

variable {β : Type} [Stamped β] {records : List β} {hint : ℕ} {target later : Micros}
  {targets : List Micros}

/-! ## Lookups in a row -/

/-- The hint for the next lookup: the place that was found, or else the hint as it was. -/
def nextHint (hint : ℕ) : Except LookupError ℕ → ℕ
  | .ok place => place
  | .error _ => hint

/-- Look up times one after the other, each from the place that was found last. -/
def lookups (records : List β) (hint : ℕ) : List Micros → List (Except LookupError ℕ)
  | [] => []
  | target :: targets =>
    let answer := lookup records hint target
    answer :: lookups records (nextHint hint answer) targets

/-- The places among some answers. -/
def found (answers : List (Except LookupError ℕ)) : List ℕ := answers.filterMap Except.toOption

/-! ## Hints that can be used -/

/-- A hint can be used for a time: it is a place, if there are any, and it has been passed. -/
structure Ready (records : List β) (hint : ℕ) (target : Micros) : Prop where
  lt : records ≠ [] → hint < records.length
  passed : Passed records hint target

/-- The front can be used for every time. -/
theorem ready_zero (records : List β) (target : Micros) : Ready records 0 target :=
  ⟨List.length_pos_of_ne_nil, passed_zero records target⟩

/-- A hint that can be used makes no difference. -/
theorem Ready.lookup_eq (h : Ready records hint target) :
    lookup records hint target = lookup records 0 target := by
  by_cases hne : records = []
  · subst hne
    rfl
  · exact lookup_eq_lookup_zero (h.lt hne) h.passed

/-- **After a lookup, the next hint can be used** for every time that is not earlier. -/
theorem Ready.next (h : Ready records hint target) (hle : target ≤ later) :
    Ready records (nextHint hint (lookup records hint target)) later := by
  cases hanswer : lookup records hint target with
  | error e => exact ⟨h.lt, h.passed.mono hle⟩
  | ok place =>
      obtain ⟨-, -, -, ⟨r, hr, -⟩, -⟩ := lookup_eq_ok_iff.mp hanswer
      exact ⟨fun _ => (List.getElem?_eq_some_iff.mp hr).1, (h.passed.lookup hanswer).mono hle⟩

/-! ## Runs -/

/-- Times that do not decrease get the answers from the front, as long as the first hint can be used
for all of them. -/
theorem lookups_eq_map (htargets : targets.Pairwise (· ≤ ·))
    (h : ∀ target ∈ targets, Ready records hint target) :
    lookups records hint targets = targets.map (lookup records 0) := by
  induction targets generalizing hint with
  | nil => rfl
  | cons target targets ih =>
      obtain ⟨hfirst, hrest⟩ := List.pairwise_cons.mp htargets
      have hready := h target List.mem_cons_self
      rw [lookups, List.map_cons, hready.lookup_eq]
      congr 1
      refine ih hrest fun later hlater => ?_
      rw [← hready.lookup_eq]
      exact hready.next (hfirst later hlater)

/-- No place that is found lies before its hint, so the places do not decrease, whatever the times
are. -/
theorem pairwise_found (records : List β) (hint : ℕ) (targets : List Micros) :
    (hint :: found (lookups records hint targets)).Pairwise (· ≤ ·) := by
  induction targets generalizing hint with
  | nil => exact List.pairwise_singleton _ _
  | cons target targets ih =>
      rw [lookups, found]
      cases hanswer : lookup records hint target with
      | error e => exact ih hint
      | ok place =>
          obtain ⟨-, -, hle, -, -⟩ := lookup_eq_ok_iff.mp hanswer
          have hplaces := ih place
          refine List.pairwise_cons.mpr ⟨fun next hnext => ?_, hplaces⟩
          have hplace : place ≤ next := by
            rcases List.mem_cons.mp hnext with rfl | hmem
            · exact Nat.le_refl next
            · exact (List.pairwise_cons.mp hplaces).1 next hmem
          omega

/-- **Hints make no difference to times that do not decrease.** Looked up one after the other, each
from the place that was found last and the first ones from the front, they get the answers that each
gets from the front, be it a place or an error, and the places that are found do not decrease. The
records need not be in order. -/
theorem lookups_forget_hints (records : List β) (htargets : targets.Pairwise (· ≤ ·)) :
    lookups records 0 targets = targets.map (lookup records 0) ∧
      (found (lookups records 0 targets)).Pairwise (· ≤ ·) :=
  ⟨lookups_eq_map htargets fun target _ => ready_zero records target,
    (pairwise_found records 0 targets).of_cons⟩

/-- Four samples, two of them at the same time. -/
def ties : List (Sample Float) :=
  [100, 110, 110, 120].map fun time => { Sample.zero with time := time }

/-- Times before the first sample, at the two that are equal and past the last one, some of them
twice. -/
theorem lookups_ties :
    [5, 5, 109, 110, 110, 119, 120, 120].Pairwise (fun t t' : Micros => t ≤ t') ∧
      lookups ties 0 [5, 5, 109, 110, 110, 119, 120, 120]
        = [.ok 1, .ok 1, .ok 1, .ok 3, .ok 3, .ok 3, .error ⟨120, .pastLast 120⟩,
            .error ⟨120, .pastLast 120⟩] ∧
      (found (lookups ties 0 [5, 5, 109, 110, 110, 119, 120, 120])).Pairwise (· ≤ ·) := by
  have htargets : [5, 5, 109, 110, 110, 119, 120, 120].Pairwise
      (fun t t' : Micros => t ≤ t') := by decide
  obtain ⟨hanswers, hplaces⟩ := lookups_forget_hints ties htargets
  exact ⟨htargets, hanswers.trans rfl, hplaces⟩

end RideHud.Timeline
