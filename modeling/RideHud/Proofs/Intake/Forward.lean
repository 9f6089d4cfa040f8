import RideHud.Proofs.Intake.Batch

/-!
# Passing over what runs back

Two ways to deal with samples that run back in time: an intake is given all of them one after the
other and goes on when it refuses one, or it is given a whole recording from which they have been
taken out before. Both keep the same.

* `heeded_eq_forward`: the samples that an intake does not refuse are those that are not older than
  any before them;
* `processAll_forward`: without the others, a recording is taken in, and the same is kept of it;
* `exists_kept_of_ordered`: what is kept is in order.
-/

namespace RideHud

/-! ## Records that do not run back -/

namespace Timeline

variable {β γ : Type} [Stamped β] [Stamped γ] {past records : List β} {r : β}

/-- The records that are not older than any record before them, of which `past` are the first. -/
def forwardAfter : List β → List β → List β
  | _, [] => []
  | past, r :: rs =>
    if past.all fun q => Stamped.time q ≤ Stamped.time r then r :: forwardAfter (past ++ [r]) rs
    else forwardAfter (past ++ [r]) rs

/-- The records that are not older than any record before them. -/
def forward (records : List β) : List β := forwardAfter [] records

theorem le_of_mem_forwardAfter (h : r ∈ forwardAfter past records) :
    ∀ q ∈ past, Stamped.time q ≤ Stamped.time r := by
  induction records generalizing past with
  | nil => cases h
  | cons s ss ih =>
      have hrest : r ∈ forwardAfter (past ++ [s]) ss →
          ∀ q ∈ past, Stamped.time q ≤ Stamped.time r :=
        fun hmem q hq => ih hmem q (List.mem_append_left _ hq)
      rw [forwardAfter] at h
      split at h
      · next hall =>
          rcases List.mem_cons.mp h with rfl | hmem
          · exact fun q hq => of_decide_eq_true (List.all_eq_true.mp hall q hq)
          · exact hrest hmem
      · exact hrest h

theorem ordered_forwardAfter (past records : List β) : Ordered (forwardAfter past records) := by
  induction records generalizing past with
  | nil => exact .nil
  | cons s ss ih =>
      rw [forwardAfter]
      split
      · -- The records behind `s` have it among those before them.
        refine .cons (fun r hr => ?_) (ih _)
        exact le_of_mem_forwardAfter hr s (List.mem_append_right _ (List.mem_singleton_self s))
      · exact ih _

/-- What does not run back is in order. -/
theorem ordered_forward (records : List β) : Ordered (forward records) :=
  ordered_forwardAfter [] records

/-- Only the times matter. -/
theorem forwardAfter_map {f : β → γ} (hf : ∀ r, Stamped.time (f r) = Stamped.time r)
    (past records : List β) :
    forwardAfter (past.map f) (records.map f) = (forwardAfter past records).map f := by
  induction records generalizing past with
  | nil => rfl
  | cons s ss ih =>
      have hpast : past.map f ++ [f s] = (past ++ [s]).map f := by
        rw [List.map_append, List.map_singleton]
      have hall : ((past.map f).all fun q => decide (Stamped.time q ≤ Stamped.time (f s)))
          = past.all fun q => decide (Stamped.time q ≤ Stamped.time s) := by
        rw [List.all_map]
        congr 1
        funext q
        rw [Function.comp_apply, hf, hf]
      rw [List.map_cons, forwardAfter, forwardAfter, hall, hpast, ih]
      split <;> rfl

theorem forward_map {f : β → γ} (hf : ∀ r, Stamped.time (f r) = Stamped.time r)
    (records : List β) : forward (records.map f) = (forward records).map f :=
  forwardAfter_map hf [] records

end Timeline

/-! ## What an intake keeps -/

namespace Intake

open Timeline

variable {α : Type} [Scalar α] {intake : Intake α} {past samples : List (Sample α)}

/-- The sample that an answer keeps. -/
def kept? : Except Backwards (Option (Sample α)) → Option (Sample α)
  | .ok kept => kept
  | .error _ => none

/-- An intake refuses what runs back. -/
theorem heeded_eq_forwardAfter (h : Remembers intake past) (samples : List (Sample α)) :
    intake.heeded samples = forwardAfter past samples := by
  induction samples generalizing intake past with
  | nil => rfl
  | cons s ss ih =>
      have hisOk : (intake.process s).1.isOk
          = past.all fun q => decide (Stamped.time q ≤ Stamped.time s) := by
        rcases h.process_cases s with ⟨t, ⟨⟨r, hr, rfl⟩, -⟩, hlt, -, hprocess⟩ | ⟨hge, hprocess⟩
        · rw [hprocess]
          refine (List.all_eq_false.mpr ⟨r, hr, ?_⟩).symm
          rw [decide_eq_true_iff]
          exact UInt64.not_le.mpr hlt
        · rw [hprocess]
          exact (List.all_eq_true.mpr fun r hr => decide_eq_true (hge r hr)).symm
      rw [heeded_cons, forwardAfter, ih (h.step s), hisOk]

/-- **A new intake refuses what runs back**, and nothing else. -/
theorem heeded_eq_forward (rule : Rule α) (samples : List (Sample α)) :
    heeded { rule } samples = forward samples :=
  heeded_eq_forwardAfter (remembers_nil rule) samples

/-- A recording of which nothing is refused is taken in. -/
theorem processAll_eq_of_isOk (h : ∀ answer ∈ intake.processEach samples, answer.isOk = true) :
    intake.processAll samples = .ok ((intake.processEach samples).filterMap kept?) := by
  induction samples generalizing intake with
  | nil => rfl
  | cons s ss ih =>
      rw [processEach] at h ⊢
      rw [processAll_cons, ih fun answer hmem => h answer (List.mem_cons_of_mem _ hmem)]
      cases hanswer : (intake.process s).1 with
      | error e =>
          have hok := h _ List.mem_cons_self
          rw [hanswer] at hok
          cases hok
      | ok kept =>
          rw [List.filterMap_cons]
          cases kept <;> rfl

/-- **Going on after refusals keeps what is kept of a recording without the refused samples.** -/
theorem processAll_forward (rule : Rule α) (samples : List (Sample α)) :
    processAll { rule } (forward samples)
      = .ok ((processEach { rule } samples).filterMap kept?) := by
  have halone := processEach_heeded { rule } 0 samples
  rw [heeded_eq_forward] at halone
  rw [processAll_eq_of_isOk fun answer hmem => ?_, halone, List.filterMap_filter]
  · congr 1
    refine congrArg (List.filterMap · _) (funext fun answer => ?_)
    cases answer <;> rfl
  · rw [halone] at hmem
    exact (List.mem_filter.mp hmem).2

/-- What is kept of a recording in order is in order. -/
theorem exists_kept_of_ordered (settings : Settings) {samples : List (Sample Float)}
    (h : Ordered samples) :
    ∃ kept, processAll { rule := .ofSettings settings } samples = .ok kept ∧ Ordered kept := by
  obtain ⟨kept, hkept, hviews⟩ := processAll_of_ordered (remembers_nil (.ofSettings settings)) h
  exact ⟨kept, hkept,
    ordered_of_forall₂_shows (h.filter _) (hviews.imp fun s v => shows_of_admits)⟩

end Intake

end RideHud
