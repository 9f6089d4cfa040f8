import Mathlib.Data.List.Basic
import RideHud.Intake

/-!
# Answers of an intake

An intake refuses a sample that is older than the latest one before it, and drops or keeps any
other. What it remembers of the samples so far is their latest time, whether or not some were
refused (`Remembers`). A refusal changes nothing but the number of samples seen, which only the
message of another refusal tells.

* `process_cases`: what one sample does;
* `processEach_eq_error_iff`: which samples are refused, and why;
* `refusals_leave_no_trace`: the other answers are those that would be given without the samples
  that are refused.
-/

namespace RideHud.Intake

/-! ## The latest of some samples -/

section

variable {α : Type} {past : List (Sample α)} {s : Sample α} {t t' : Micros}

/-- `t` is the largest time of some samples. -/
def IsLatest (past : List (Sample α)) (t : Micros) : Prop :=
  (∃ s ∈ past, s.time = t) ∧ ∀ s ∈ past, s.time ≤ t

theorem IsLatest.unique (h : IsLatest past t) (h' : IsLatest past t') : t = t' := by
  obtain ⟨⟨s, hs, rfl⟩, hle⟩ := h
  obtain ⟨⟨s', hs', rfl⟩, hle'⟩ := h'
  exact UInt64.le_antisymm (hle' s hs) (hle s' hs')

/-- An older sample makes no difference. -/
theorem IsLatest.concat_of_lt (h : IsLatest past t) (hlt : s.time < t) :
    IsLatest (past ++ [s]) t := by
  obtain ⟨⟨r, hr, hrt⟩, hle⟩ := h
  refine ⟨⟨r, List.mem_append_left _ hr, hrt⟩, fun q hq => ?_⟩
  rcases List.mem_append.mp hq with hq | hq
  · exact hle q hq
  · rw [List.mem_singleton.mp hq]
    exact UInt64.le_of_lt hlt

/-- A sample that is not older than any other is the latest. -/
theorem isLatest_concat (h : ∀ r ∈ past, r.time ≤ s.time) : IsLatest (past ++ [s]) s.time := by
  refine ⟨⟨s, List.mem_append_right _ (List.mem_singleton_self s), rfl⟩, fun q hq => ?_⟩
  rcases List.mem_append.mp hq with hq | hq
  · exact h q hq
  · rw [List.mem_singleton.mp hq]
    exact UInt64.le_refl _

/-- What an intake remembers of the samples so far is their latest time. -/
def Remembers (intake : Intake α) (past : List (Sample α)) : Prop :=
  match intake.lastTime with
  | none => past = []
  | some t => IsLatest past t

/-- A new intake has seen no samples. -/
theorem remembers_nil (rule : Rule α) : Remembers { rule } [] := rfl

end

variable {α : Type} [Scalar α] {intake : Intake α} {samples past : List (Sample α)} {s : Sample α}

/-! ## One sample -/

/-- **A sample is refused, or it is not**: it is refused if it is older than the last one that was
not, and then all that changes is the number of samples seen. -/
theorem process_cases (intake : Intake α) (s : Sample α) :
    (∃ previous, intake.lastTime = some previous ∧ s.time < previous ∧
      intake.process s
        = (.error ⟨intake.seen, previous, s.time⟩, { intake with seen := intake.seen + 1 })) ∨
    ((∀ previous, intake.lastTime = some previous → previous ≤ s.time) ∧
      intake.process s
        = (.ok (intake.accepted s), process.advance intake s (intake.seen + 1))) := by
  unfold process
  cases intake.lastTime with
  | none => exact .inr ⟨nofun, rfl⟩
  | some previous =>
      dsimp only
      split
      · next hlt => exact .inl ⟨previous, rfl, hlt, rfl⟩
      · next hge =>
          refine .inr ⟨?_, rfl⟩
          rintro _ ⟨⟩
          exact UInt64.not_lt.mp hge

/-- The sample that the HUD sees, with a pressure `p`: on the clock of the video and from the
gondola. -/
def Rule.view (rule : Rule α) (p : α) (s : Sample α) : Sample α :=
  let s := { s with pressure := p, time := s.time.after rule.shift }
  match rule.mount with
  | some mount => unmount mount s
  | none => s

@[simp] theorem Rule.time_view (rule : Rule α) (p : α) (s : Sample α) :
    (rule.view p s).time = s.time.after rule.shift := by
  unfold Rule.view
  cases rule.mount <;> rfl

/-- A sample that is not refused is kept if its time is. -/
theorem accepted_eq (intake : Intake α) (s : Sample α) :
    intake.accepted s = if intake.rule.keeps (s.time.after intake.rule.shift) then
      some (intake.rule.view (smoothed intake.rule.smoothing intake.pressure s.pressure) s)
      else none := rfl

/-! ## Runs -/

/-- The intake after some samples. -/
def after : Intake α → List (Sample α) → Intake α
  | intake, [] => intake
  | intake, s :: ss => (intake.process s).2.after ss

/-- A recording is taken in if its first sample is not refused and the rest is taken in. -/
theorem processAll_cons (intake : Intake α) (s : Sample α) (ss : List (Sample α)) :
    intake.processAll (s :: ss) = (intake.process s).1.bind fun answer =>
      ((intake.process s).2.processAll ss).map (answer.toList ++ ·) := by
  rw [processAll]
  obtain ⟨answer, next⟩ := intake.process s
  cases answer <;> rfl

theorem length_processEach (intake : Intake α) (samples : List (Sample α)) :
    (intake.processEach samples).length = samples.length := by
  induction samples generalizing intake with
  | nil => rfl
  | cons s ss ih => exact congrArg (· + 1) (ih _)

/-- An answer is given by the intake after the samples before. -/
theorem getElem?_processEach (intake : Intake α) (samples : List (Sample α)) (i : ℕ) :
    (intake.processEach samples)[i]?
      = samples[i]?.map fun s => ((intake.after (samples.take i)).process s).1 := by
  induction samples generalizing intake i with
  | nil => rfl
  | cons s ss ih =>
      cases i with
      | zero => rfl
      | succ i => exact ih _ i

theorem seen_process (intake : Intake α) (s : Sample α) :
    (intake.process s).2.seen = intake.seen + 1 := by
  rcases intake.process_cases s with ⟨_, -, -, h⟩ | ⟨-, h⟩
  · rw [h]
  · rw [h]
    rfl

theorem rule_process (intake : Intake α) (s : Sample α) :
    (intake.process s).2.rule = intake.rule := by
  rcases intake.process_cases s with ⟨_, -, -, h⟩ | ⟨-, h⟩
  · rw [h]
  · rw [h]
    rfl

theorem seen_after (intake : Intake α) (samples : List (Sample α)) :
    (intake.after samples).seen = intake.seen + samples.length := by
  induction samples generalizing intake with
  | nil => rfl
  | cons s ss ih =>
      rw [after, ih, seen_process, List.length_cons]
      omega

/-- A new intake has seen the samples it was given. -/
theorem seen_after_take (rule : Rule α) {i : ℕ} (hi : i ≤ samples.length) :
    (after { rule } (samples.take i)).seen = i := by
  rw [seen_after, List.length_take, Nat.min_eq_left hi]
  exact Nat.zero_add i

/-! ## Which samples are refused -/

/-- A sample is refused if there is a later one before it. -/
theorem Remembers.process_cases (h : Remembers intake past) (s : Sample α) :
    (∃ t, IsLatest past t ∧ s.time < t ∧ intake.lastTime = some t ∧
      intake.process s
        = (.error ⟨intake.seen, t, s.time⟩, { intake with seen := intake.seen + 1 })) ∨
    ((∀ r ∈ past, r.time ≤ s.time) ∧
      intake.process s
        = (.ok (intake.accepted s), process.advance intake s (intake.seen + 1))) := by
  unfold Remembers at h
  rcases intake.process_cases s with ⟨t, hlast, hlt, hprocess⟩ | ⟨hge, hprocess⟩
  · rw [hlast] at h
    exact .inl ⟨t, h, hlt, hlast, hprocess⟩
  · refine .inr ⟨fun r hr => ?_, hprocess⟩
    cases hlast : intake.lastTime with
    | none =>
        rw [hlast] at h
        subst h
        cases hr
    | some t =>
        rw [hlast] at h
        exact UInt64.le_trans (h.2 r hr) (hge t hlast)

/-- The refusal tells the latest time before. -/
theorem Remembers.process_of_lt (h : Remembers intake past) {t : Micros} (hlatest : IsLatest past t)
    (hlt : s.time < t) : (intake.process s).1 = .error ⟨intake.seen, t, s.time⟩ := by
  rcases h.process_cases s with ⟨t', hlatest', -, -, hprocess⟩ | ⟨hge, -⟩
  · rw [hprocess, hlatest.unique hlatest']
  · obtain ⟨⟨r, hr, rfl⟩, -⟩ := hlatest
    exact absurd hlt (UInt64.not_lt.mpr (hge r hr))

/-- What is remembered is kept up to date, whether or not the sample is refused. -/
theorem Remembers.step (h : Remembers intake past) (s : Sample α) :
    Remembers (intake.process s).2 (past ++ [s]) := by
  rcases h.process_cases s with ⟨t, hlatest, hlt, hlast, hprocess⟩ | ⟨hge, hprocess⟩
  · rw [hprocess]
    unfold Remembers
    rw [hlast]
    exact hlatest.concat_of_lt hlt
  · rw [hprocess]
    exact isLatest_concat hge

theorem Remembers.after (h : Remembers intake past) (samples : List (Sample α)) :
    Remembers (intake.after samples) (past ++ samples) := by
  induction samples generalizing intake past with
  | nil => rwa [List.append_nil]
  | cons s ss ih =>
      rw [List.append_cons]
      exact ih (h.step s)

/-- After any samples an intake remembers the latest of them. -/
theorem remembers_after (rule : Rule α) (samples : List (Sample α)) :
    Remembers (after { rule } samples) samples :=
  (remembers_nil rule).after samples

/-- **A sample is refused if it is older than the latest one before it**, and the refusal tells its
place and both times. -/
theorem processEach_eq_error_iff (rule : Rule α) (samples : List (Sample α)) (i : ℕ)
    (e : Backwards) :
    (processEach { rule } samples)[i]? = some (.error e) ↔
      ∃ s t, samples[i]? = some s ∧ IsLatest (samples.take i) t ∧ s.time < t ∧
        e = ⟨i, t, s.time⟩ := by
  rw [getElem?_processEach]
  cases hs : samples[i]? with
  | none => simp
  | some s =>
      have hseen := seen_after_take rule (Nat.le_of_lt (List.getElem?_eq_some_iff.mp hs).1)
      have hremembers := remembers_after rule (samples.take i)
      rw [Option.map_some]
      constructor
      · intro h
        rcases hremembers.process_cases s with ⟨t, hlatest, hlt, -, hprocess⟩ | ⟨-, hprocess⟩
        · rw [hprocess, hseen] at h
          cases h
          exact ⟨s, t, rfl, hlatest, hlt, rfl⟩
        · rw [hprocess] at h
          cases h
      · rintro ⟨s', t, ⟨⟩, hlatest, hlt, rfl⟩
        rw [hremembers.process_of_lt hlatest hlt, hseen]

/-! ## The other samples -/

/-- The samples that are not refused. -/
def heeded (intake : Intake α) (samples : List (Sample α)) : List (Sample α) :=
  ((samples.zip (intake.processEach samples)).filter fun p => p.2.isOk).map Prod.fst

theorem heeded_cons (intake : Intake α) (s : Sample α) (ss : List (Sample α)) :
    intake.heeded (s :: ss) = if (intake.process s).1.isOk then
      s :: (intake.process s).2.heeded ss else (intake.process s).2.heeded ss := by
  unfold heeded
  rw [processEach, List.zip_cons_cons, List.filter_cons]
  split
  · exact List.map_cons
  · rfl

/-- **The samples that are not refused are answered as they would be alone**, even if another number
of samples came before. -/
theorem processEach_heeded (intake : Intake α) (n : ℕ) (samples : List (Sample α)) :
    processEach { intake with seen := n } (intake.heeded samples)
      = (intake.processEach samples).filter (·.isOk) := by
  induction samples generalizing intake n with
  | nil => rfl
  | cons s ss ih =>
      rw [heeded_cons, processEach]
      rcases intake.process_cases s with ⟨t, -, -, hprocess⟩ | ⟨hge, hprocess⟩
      · rw [hprocess]
        exact ih { intake with seen := intake.seen + 1 } n
      · -- The number of samples seen is no part of what is done to a sample.
        have hother : Intake.process { intake with seen := n } s
            = (.ok (intake.accepted s), process.advance intake s (n + 1)) := by
          rcases Intake.process_cases { intake with seen := n } s with
            ⟨t, hlast, hlt, -⟩ | ⟨-, hprocess'⟩
          · exact absurd hlt (UInt64.not_lt.mpr (hge t hlast))
          · exact hprocess'
        rw [hprocess]
        show processEach { intake with seen := n } (s :: _) = _
        rw [processEach, hother]
        exact congrArg (_ :: ·) (ih (process.advance intake s (intake.seen + 1)) (n + 1))

/-- **A refused sample leaves no trace.** Every sample is answered; it is refused if it is older
than the latest one before it, refused or not, and the refusal tells its place and both times. What
is answered to the other samples is what an intake answers that never gets to see the refused ones:
each of them is dropped or kept, with the same value, and none is refused. -/
theorem refusals_leave_no_trace (rule : Rule α) (samples : List (Sample α)) :
    (processEach { rule } samples).length = samples.length ∧
    (∀ i e, (processEach { rule } samples)[i]? = some (.error e) ↔
      ∃ s t, samples[i]? = some s ∧ IsLatest (samples.take i) t ∧ s.time < t ∧
        e = ⟨i, t, s.time⟩) ∧
    processEach { rule } (heeded { rule } samples)
      = (processEach { rule } samples).filter (·.isOk) :=
  ⟨length_processEach _ samples, processEach_eq_error_iff rule samples,
    processEach_heeded { rule } 0 samples⟩

end RideHud.Intake
