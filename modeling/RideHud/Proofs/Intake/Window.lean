import Mathlib.Algebra.Group.Nat.Defs
import RideHud.Proofs.Intake.Answers

/-!
# The window of the video

Whether a sample lies in the window is only looked at after its pressure has been smoothed and its
time shifted, so samples outside the window are treated like all others and then dropped. An intake
differs from the one without a window (`opened`) by what it drops.

* `toNat_after`, `toNat_ofMillis`: times stop at the latest one;
* `process_opened`: what the window changes for one sample;
* `window_only_selects`: what it changes for a recording.
-/

namespace RideHud

/-! ## Times -/

/-- A number of microseconds, or that of the latest time if it is beyond. -/
def capped (n : ℕ) : ℕ := min n (2 ^ 64 - 1)

theorem toNat_latest : Micros.latest.toNat = 2 ^ 64 - 1 := rfl

theorem toNat_after (t d : Micros) : (t.after d).toNat = capped (t.toNat + d.toNat) := by
  have hroom : (Micros.latest - t).toNat = 2 ^ 64 - 1 - t.toNat :=
    UInt64.toNat_sub_of_le _ _ (UInt64.le_iff_toNat_le.mpr (Nat.le_pred_of_lt t.toNat_lt))
  have ht := t.toNat_lt
  unfold Micros.after capped
  split
  · next h =>
      rw [UInt64.lt_iff_toNat_lt, hroom] at h
      rw [toNat_latest]
      omega
  · next h =>
      rw [UInt64.lt_iff_toNat_lt, hroom] at h
      rw [UInt64.toNat_add, Nat.mod_eq_of_lt (by omega)]
      omega

theorem toNat_ofMillis (ms : UInt64) : (Micros.ofMillis ms).toNat = capped (ms.toNat * 1000) := by
  have hmost : (Micros.latest / 1000).toNat = (2 ^ 64 - 1) / 1000 := rfl
  unfold Micros.ofMillis capped
  split
  · next h =>
      rw [UInt64.lt_iff_toNat_lt, hmost] at h
      rw [toNat_latest]
      omega
  · next h =>
      rw [UInt64.lt_iff_toNat_lt, hmost] at h
      have hthousand : (1000 : UInt64).toNat = 1000 := rfl
      rw [UInt64.toNat_mul, hthousand, Nat.mod_eq_of_lt (by omega)]
      omega

/-- A time, given as a number of microseconds, lies in the part of the video that has data. -/
def Settings.Video.Covers (v : Settings.Video) (t : ℕ) : Prop :=
  capped (v.start.toNat * 1000) ≤ t ∧ (v.stop = 0 ∨ t ≤ capped (v.stop.toNat * 1000))

instance (v : Settings.Video) (t : ℕ) : Decidable (v.Covers t) :=
  inferInstanceAs (Decidable (_ ∧ _))

namespace Intake

/-- Kept are the times from the start on, up to the end if there is one. -/
theorem Rule.keeps_iff {α : Type} (rule : Rule α) (t : Micros) :
    rule.keeps t = true ↔ rule.start ≤ t ∧ ∀ stop, rule.stop = some stop → t ≤ stop := by
  unfold Rule.keeps
  rw [Bool.and_eq_true, Bool.not_eq_true', decide_eq_false_iff_not, UInt64.not_lt]
  cases rule.stop with
  | none => simp
  | some stop => simp [UInt64.not_lt]

/-- Kept are the times that the video covers. -/
theorem keeps_ofSettings (settings : Settings) (t : Micros) :
    (Rule.ofSettings settings).keeps t = decide (settings.video.Covers t.toNat) := by
  have hstop : (Rule.ofSettings settings).stop = settings.video.last?.map Micros.ofMillis := rfl
  have hstart : (Rule.ofSettings settings).start = Micros.ofMillis settings.video.start := rfl
  rw [Bool.eq_iff_iff, decide_eq_true_iff, Rule.keeps_iff, hstart, hstop, Settings.Video.Covers,
    UInt64.le_iff_toNat_le, toNat_ofMillis]
  refine and_congr_right fun _ => ?_
  unfold Settings.Video.last?
  by_cases hzero : settings.video.stop = 0
  · simp [hzero]
  · have hpos : 0 < settings.video.stop := UInt64.pos_iff_ne_zero.mpr hzero
    rw [if_pos hpos, Option.map_some]
    simp [hzero, UInt64.le_iff_toNat_le, toNat_ofMillis]

/-! ## Without a window -/

/-- The rule without a window. -/
def Rule.opened {α : Type} (rule : Rule α) : Rule α := { rule with start := 0, stop := none }

theorem Rule.keeps_opened {α : Type} (rule : Rule α) (t : Micros) : rule.opened.keeps t = true :=
  (rule.opened.keeps_iff t).mpr ⟨UInt64.zero_le, nofun⟩

/-- Settings without a window ask for the rule without a window. -/
theorem opened_ofSettings (settings : Settings) :
    Rule.ofSettings { settings with video := { start := 0, stop := 0 } }
      = (Rule.ofSettings settings).opened := by
  have hzero : Micros.ofMillis 0 = 0 := by decide
  have hnone : (⟨0, 0⟩ : Settings.Video).last? = none := by decide
  simp only [Rule.ofSettings, Rule.opened, hzero, hnone, Option.map_none]

variable {α : Type} [Scalar α]

/-- The intake without a window. -/
def opened (intake : Intake α) : Intake α := { intake with rule := intake.rule.opened }

/-- What is kept without a window is kept with one if it lies in there, as the same value. -/
theorem accepted_opened (intake : Intake α) (s : Sample α) :
    intake.accepted s = (intake.opened.accepted s).filter fun v => intake.rule.keeps v.time := by
  have hview : intake.opened.accepted s = some
      (intake.rule.view (smoothed intake.rule.smoothing intake.pressure s.pressure) s) := by
    rw [accepted_eq]
    exact if_pos (intake.rule.keeps_opened _)
  rw [hview, accepted_eq, Option.filter_some, Rule.time_view]

/-- **The window decides whether a sample is dropped and nothing else**: it makes no difference to
what is refused, to the values that are kept or to what is done to later samples. -/
theorem process_opened (intake : Intake α) (s : Sample α) :
    (intake.process s).1
        = (intake.opened.process s).1.map (Option.filter fun v => intake.rule.keeps v.time) ∧
      (intake.process s).2.opened = (intake.opened.process s).2 := by
  rcases intake.process_cases s with ⟨t, hlast, hlt, hprocess⟩ | ⟨hge, hprocess⟩
  · rcases intake.opened.process_cases s with ⟨t', hlast', -, hprocess'⟩ | ⟨hge', -⟩
    · obtain rfl : t = t' := Option.some.inj (hlast.symm.trans hlast')
      rw [hprocess, hprocess']
      exact ⟨rfl, rfl⟩
    · exact absurd hlt (UInt64.not_lt.mpr (hge' t hlast))
  · rcases intake.opened.process_cases s with ⟨t', hlast', hlt', -⟩ | ⟨-, hprocess'⟩
    · exact absurd hlt' (UInt64.not_lt.mpr (hge t' hlast'))
    · rw [hprocess, hprocess', accepted_opened]
      exact ⟨rfl, rfl⟩

/-- Over a whole recording too, the window only selects from what is kept without one. -/
theorem processAll_opened (intake : Intake α) (samples : List (Sample α)) :
    intake.processAll samples
      = (intake.opened.processAll samples).map (List.filter fun v => intake.rule.keeps v.time) := by
  induction samples generalizing intake with
  | nil => rfl
  | cons s ss ih =>
      obtain ⟨hanswer, hnext⟩ := intake.process_opened s
      rw [processAll_cons, processAll_cons, ih, rule_process, hanswer, hnext]
      cases (intake.opened.process s).1 with
      | error e => rfl
      | ok answer =>
          cases (intake.opened.process s).2.processAll ss with
          | error e => rfl
          | ok kept =>
              simp only [Except.map, Except.bind, List.filter_append, Option.toList_filter]

/-- **The window of the video only selects.** With a window, taking in a recording fails exactly if
it fails without one, and with the same error. If it succeeds, the samples kept are those that are
kept without a window and whose times the video covers, in the same order and with the same
values. -/
theorem window_only_selects (settings : Settings) (samples : List (Sample Float)) :
    processAll { rule := .ofSettings settings } samples
      = (processAll { rule := .ofSettings { settings with video := { start := 0, stop := 0 } } }
          samples).map (List.filter fun s => decide (settings.video.Covers s.time.toNat)) := by
  rw [processAll_opened, opened_ofSettings]
  simp only [keeps_ofSettings]
  rfl

end Intake

end RideHud
