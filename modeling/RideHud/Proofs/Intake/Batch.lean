import Mathlib.Data.List.Forall2
import RideHud.Proofs.Intake.Window
import RideHud.Proofs.Timeline.Order

/-!
# Taking in a recording

A recording is taken in if no sample steps back in time. What is kept then is in order, so it can be
searched by time and cut into spans.

* `processAll_of_ordered`: recordings in order are taken in, and what is kept of them;
* `processAll_of_stepsBack`: others fail at the first sample that steps back;
* `processAll_keeps_order`: both, for the rule that settings ask for.
-/

namespace RideHud.Intake

open Timeline

variable {α : Type} [Scalar α] {intake : Intake α} {past samples : List (Sample α)}

/-- Two recordings are taken in one after the other. -/
theorem processAll_append (intake : Intake α) (xs ys : List (Sample α)) :
    intake.processAll (xs ++ ys) = (intake.processAll xs).bind fun kept =>
      ((intake.after xs).processAll ys).map (kept ++ ·) := by
  induction xs generalizing intake with
  | nil =>
      show intake.processAll ys = (intake.processAll ys).map ([] ++ ·)
      cases intake.processAll ys <;> rfl
  | cons s ss ih =>
      rw [List.cons_append, processAll_cons, processAll_cons, ih, after]
      cases (intake.process s).1 with
      | error e => rfl
      | ok answer =>
          cases (intake.process s).2.processAll ss with
          | error e => rfl
          | ok kept =>
              cases ((intake.process s).2.after ss).processAll ys with
              | error e => rfl
              | ok kept' => simp only [Except.bind, Except.map, List.append_assoc]

/-! ## Recordings in order -/

/-- The samples whose times are kept. -/
def Rule.covered (rule : Rule α) (samples : List (Sample α)) : List (Sample α) :=
  samples.filter fun s => rule.keeps (s.time.after rule.shift)

/-- `v` is a view of `s` with a time that is kept. -/
def Rule.Admits (rule : Rule α) (s v : Sample α) : Prop :=
  rule.keeps v.time = true ∧ ∃ p, v = rule.view p s

/-- **A recording in order is taken in**, and what is kept are views of the samples whose times are
kept, one of each and in the same order. -/
theorem processAll_of_ordered (h : Remembers intake past) (hordered : Ordered (past ++ samples)) :
    ∃ kept, intake.processAll samples = .ok kept ∧
      List.Forall₂ intake.rule.Admits (intake.rule.covered samples) kept := by
  induction samples generalizing intake past with
  | nil => exact ⟨[], rfl, .nil⟩
  | cons s ss ih =>
      rw [List.append_cons] at hordered
      obtain ⟨rest, hrest, hviews⟩ := ih (h.step s) hordered
      rw [rule_process] at hviews
      rcases h.process_cases s with ⟨t, ⟨⟨r, hr, rfl⟩, -⟩, hlt, -, -⟩ | ⟨-, hprocess⟩
      · -- No sample before is later, as the recording is in order.
        have hpast : Ordered (past ++ [s]) := (List.pairwise_append.mp hordered).1
        exact absurd hlt (UInt64.not_lt.mpr (hpast.le_last hr))
      · have hanswer := congrArg Prod.fst hprocess
        refine ⟨(intake.accepted s).toList ++ rest, ?_, ?_⟩
        · rw [processAll_cons, hanswer, hrest]
          rfl
        · unfold Rule.covered at hviews ⊢
          rw [accepted_eq, List.filter_cons]
          split
          · next hkeeps => exact .cons ⟨by rwa [Rule.time_view], _, rfl⟩ hviews
          · exact hviews

/-! ## Other recordings -/

/-- **A recording fails at the first sample that steps back**, and the failure tells the place of
that sample and the times of both. -/
theorem processAll_of_stepsBack (rule : Rule α) {i : ℕ} {a b : Sample α}
    (hstep : StepsBack samples i a b) (hfirst : ∀ j < i, ∀ c d, ¬StepsBack samples j c d) :
    processAll { rule } samples = .error ⟨i + 1, a.time, b.time⟩ := by
  obtain ⟨ha, hb, hback⟩ := hstep
  obtain ⟨hlt, rfl⟩ := List.getElem?_eq_some_iff.mp hb
  have hordered := ordered_take hfirst
  have hlatest : IsLatest (samples.take (i + 1)) a.time := by
    rw [List.take_add_one, ha, Option.toList_some] at hordered ⊢
    exact isLatest_concat fun r hr => hordered.le_last hr
  have hrefused := (remembers_after rule (samples.take (i + 1))).process_of_lt hlatest hback
  rw [seen_after_take rule (Nat.le_of_lt hlt)] at hrefused
  obtain ⟨kept, hkept, -⟩ := processAll_of_ordered (remembers_nil rule) hordered
  have happend := processAll_append { rule } (samples.take (i + 1)) (samples.drop (i + 1))
  rw [List.take_append_drop, hkept, List.drop_eq_getElem_cons hlt, processAll_cons,
    hrefused] at happend
  exact happend

/-! ## The main theorem -/

/-- The time of a sample on the clock of the video, as a number of microseconds. -/
def videoTime (settings : Settings) (s : Sample Float) : ℕ :=
  capped (s.time.toNat + capped (settings.data.start.toNat * 1000))

/-- `v` is what is kept of a sample `s`. -/
structure Shows (settings : Settings) (s v : Sample Float) : Prop where
  time : v.time.toNat = videoTime settings s
  covered : settings.video.Covers v.time.toNat
  view : ∃ p, v = (Rule.ofSettings settings).view p s

theorem toNat_time_shift (settings : Settings) (s : Sample Float) :
    (s.time.after (Rule.ofSettings settings).shift).toNat = videoTime settings s := by
  rw [toNat_after, show (Rule.ofSettings settings).shift = .ofMillis settings.data.start from rfl,
    toNat_ofMillis, videoTime]

/-- The samples whose times are kept are those that the video covers. -/
theorem covered_ofSettings (settings : Settings) (samples : List (Sample Float)) :
    (Rule.ofSettings settings).covered samples
      = samples.filter fun s => decide (settings.video.Covers (videoTime settings s)) := by
  simp only [Rule.covered, keeps_ofSettings, toNat_time_shift]

theorem shows_of_admits {settings : Settings} {s v : Sample Float}
    (h : (Rule.ofSettings settings).Admits s v) : Shows settings s v := by
  obtain ⟨hkeeps, p, rfl⟩ := h
  rw [keeps_ofSettings, decide_eq_true_iff] at hkeeps
  exact ⟨by rw [Rule.time_view, toNat_time_shift], hkeeps, p, rfl⟩

/-- Later samples have later times on the clock of the video, too. -/
theorem videoTime_le {settings : Settings} {s t : Sample Float} (h : s.time ≤ t.time) :
    videoTime settings s ≤ videoTime settings t := by
  have hle := UInt64.le_iff_toNat_le.mp h
  unfold videoTime capped
  omega

/-- What is kept of samples in order is in order. -/
theorem ordered_of_forall₂_shows {settings : Settings} {samples kept : List (Sample Float)}
    (hordered : Ordered samples) (hshows : List.Forall₂ (Shows settings) samples kept) :
    Ordered kept := by
  have htimes : kept.map (·.time.toNat) = samples.map (videoTime settings) := by
    clear hordered
    induction hshows with
    | nil => rfl
    | cons hshow _ ih => rw [List.map_cons, List.map_cons, hshow.time, ih]
  have hpairs : (samples.map (videoTime settings)).Pairwise (· ≤ ·) :=
    List.pairwise_map.mpr (hordered.imp videoTime_le)
  rw [← htimes, List.pairwise_map] at hpairs
  exact hpairs.imp UInt64.le_iff_toNat_le.mpr

/-- **Taking in a recording keeps the order of time.** It fails exactly if some sample is older than
the one before it, and the failure tells the place of the first such sample and the times of both.
Otherwise what is kept is in order and shows the samples whose times the video covers, one of each
and in the same order: at the time of the sample, shifted to the clock of the video. -/
theorem processAll_keeps_order (settings : Settings) (samples : List (Sample Float)) :
    (∀ e, processAll { rule := .ofSettings settings } samples = .error e ↔
      ∃ i a b, StepsBack samples i a b ∧ (∀ j < i, ∀ c d, ¬StepsBack samples j c d) ∧
        e = ⟨i + 1, a.time, b.time⟩) ∧
    ((∃ i a b, StepsBack samples i a b) ∨
      ∃ kept, processAll { rule := .ofSettings settings } samples = .ok kept ∧ Ordered kept ∧
        List.Forall₂ (Shows settings)
          (samples.filter fun s => decide (settings.video.Covers (videoTime settings s))) kept) := by
  have hfail : ∀ i a b, StepsBack samples i a b → (∀ j < i, ∀ c d, ¬StepsBack samples j c d) →
      processAll { rule := .ofSettings settings } samples = .error ⟨i + 1, a.time, b.time⟩ :=
    fun i a b => processAll_of_stepsBack _
  by_cases hback : ∃ i a b, StepsBack samples i a b
  · refine ⟨fun e => ⟨fun herror => ?_, ?_⟩, .inl hback⟩
    · obtain ⟨i, a, b, hstep, hfirst⟩ := exists_first_stepsBack hback
      rw [hfail i a b hstep hfirst] at herror
      exact ⟨i, a, b, hstep, hfirst, (Except.error.inj herror).symm⟩
    · rintro ⟨i, a, b, hstep, hfirst, rfl⟩
      exact hfail i a b hstep hfirst
  · have hordered := ordered_of_not_stepsBack hback
    obtain ⟨kept, hkept, hviews⟩ :=
      processAll_of_ordered (remembers_nil (.ofSettings settings)) hordered
    rw [covered_ofSettings] at hviews
    have hshows := hviews.imp fun s v => shows_of_admits
    refine ⟨fun e => ⟨fun herror => ?_, ?_⟩, .inr ⟨kept, hkept, ?_, hshows⟩⟩
    · rw [hkept] at herror
      cases herror
    · rintro ⟨i, a, b, hstep, -⟩
      exact absurd ⟨i, a, b, hstep⟩ hback
    · exact ordered_of_forall₂_shows (hordered.filter _) hshows

end RideHud.Intake
