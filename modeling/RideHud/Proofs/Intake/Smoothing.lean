import Mathlib.Tactic.Linarith
import RideHud.Proofs.Exact
import RideHud.Proofs.Intake.Answers

/-!
# Smoothed pressures

A smoothed pressure is a mean of the one before and of the new one, as long as the newest sample has
no more than the whole weight. So, with exact arithmetic, what an intake remembers lies between any
bounds of the pressures that came in (`Within.after`), and so does what it hands on
(`smoothing_neverOvershoots`). Samples that are refused do not count, samples that are dropped do.
-/

namespace RideHud.Intake

/-! ## Runs -/

section

variable {α : Type} [Scalar α]

theorem rule_after (intake : Intake α) (samples : List (Sample α)) :
    (intake.after samples).rule = intake.rule := by
  induction samples generalizing intake with
  | nil => rfl
  | cons s ss ih => rw [after, ih, rule_process]

/-- What is heeded of more samples is decided after those before. -/
theorem heeded_append (intake : Intake α) (xs ys : List (Sample α)) :
    intake.heeded (xs ++ ys) = intake.heeded xs ++ (intake.after xs).heeded ys := by
  induction xs generalizing intake with
  | nil => rfl
  | cons s ss ih =>
      rw [List.cons_append, heeded_cons, heeded_cons, ih, after]
      split
      · exact List.cons_append
      · rfl

@[simp] theorem Rule.pressure_view (rule : Rule α) (p : α) (s : Sample α) :
    (rule.view p s).pressure = p := by
  unfold Rule.view
  cases rule.mount <;> rfl

/-- A sample that is kept is not refused, and has the smoothed pressure. -/
theorem pressure_of_kept {rule : Rule α} {samples : List (Sample α)} {i : ℕ} {v : Sample α}
    (h : (processEach { rule } samples)[i]? = some (.ok (some v))) :
    ∃ s, samples[i]? = some s ∧
      heeded { rule } (samples.take (i + 1)) = heeded { rule } (samples.take i) ++ [s] ∧
      v.pressure
        = smoothed rule.smoothing (after { rule } (samples.take i)).pressure s.pressure := by
  rw [getElem?_processEach, Option.map_eq_some_iff] at h
  obtain ⟨s, hs, hanswer⟩ := h
  refine ⟨s, hs, ?_, ?_⟩
  · rw [List.take_add_one, hs, Option.toList_some, heeded_append, heeded_cons, hanswer]
    rfl
  · rcases process_cases (after { rule } (samples.take i)) s with
      ⟨_, -, -, hprocess⟩ | ⟨-, hprocess⟩
    · rw [hprocess] at hanswer
      cases hanswer
    · rw [hprocess, Except.ok.injEq, accepted_eq] at hanswer
      split at hanswer
      · rw [← Option.some.inj hanswer, Rule.pressure_view, rule_after]
      · cases hanswer

end

/-! ## Smoothing -/

open scoped RideHud.Exact

variable {K : Type} [DivisionRing K] [LinearOrder K] {c p lo hi : K} {previous : Option K}

/-- A pressure is smoothed after another one if it has a share at all. -/
theorem smoothed_some (c q p : K) :
    smoothed c (some q) p = if 0 < c then (q * (c - 1) + p) / c else p := by
  rw [smoothed, Exact.zero_eq, Exact.one_eq]

/-- Nothing is smoothed for a coefficient of zero or one. -/
theorem smoothed_eq_self [IsStrictOrderedRing K] (h : c = 0 ∨ c = 1) (previous : Option K)
    (p : K) : smoothed c previous p = p := by
  cases previous with
  | none => rfl
  | some q =>
      rw [smoothed_some]
      rcases h with rfl | rfl
      · exact if_neg (lt_irrefl 0)
      · rw [if_pos zero_lt_one, sub_self, mul_zero, zero_add, div_one]

variable [IsStrictOrderedRing K]

/-- **A smoothed pressure lies between the bounds** of the one before and of the new one. -/
theorem smoothed_mem_Icc (hc : c = 0 ∨ 1 ≤ c) (hprevious : ∀ q ∈ previous, q ∈ Set.Icc lo hi)
    (hp : p ∈ Set.Icc lo hi) : smoothed c previous p ∈ Set.Icc lo hi := by
  rcases hc with rfl | hone
  · rwa [smoothed_eq_self (.inl rfl)]
  cases previous with
  | none => exact hp
  | some q =>
      obtain ⟨hlo, hhi⟩ := hp
      obtain ⟨hlo', hhi'⟩ := hprevious q rfl
      have hpos : 0 < c := zero_lt_one.trans_le hone
      have hshare : 0 ≤ c - 1 := sub_nonneg.mpr hone
      rw [smoothed_some, if_pos hpos]
      constructor
      · rw [le_div_iff₀ hpos]
        calc lo * c = lo * (c - 1) + lo := by rw [mul_sub, mul_one, sub_add_cancel]
          _ ≤ q * (c - 1) + p := by gcongr
      · rw [div_le_iff₀ hpos]
        calc q * (c - 1) + p ≤ hi * (c - 1) + hi := by gcongr
          _ = hi * c := by rw [mul_sub, mul_one, sub_add_cancel]

/-- What an intake remembers of the pressures lies between some bounds. -/
def Within (intake : Intake K) (lo hi : K) : Prop := ∀ q ∈ intake.pressure, q ∈ Set.Icc lo hi

variable {intake : Intake K} {samples : List (Sample K)}

/-- A sample whose pressure lies between the bounds keeps them, and so does one that is refused. -/
theorem Within.step (h : intake.Within lo hi)
    (hc : intake.rule.smoothing = 0 ∨ 1 ≤ intake.rule.smoothing) {s : Sample K}
    (hs : (intake.process s).1.isOk = true → s.pressure ∈ Set.Icc lo hi) :
    (intake.process s).2.Within lo hi := by
  rcases intake.process_cases s with ⟨_, -, -, hprocess⟩ | ⟨-, hprocess⟩
  · rw [hprocess]
    exact h
  · rw [hprocess] at hs ⊢
    rintro _ ⟨⟩
    exact smoothed_mem_Icc hc h (hs rfl)

/-- **What an intake remembers lies between the bounds of what it has heeded.** -/
theorem Within.after (h : intake.Within lo hi)
    (hc : intake.rule.smoothing = 0 ∨ 1 ≤ intake.rule.smoothing)
    (hsamples : ∀ s ∈ intake.heeded samples, s.pressure ∈ Set.Icc lo hi) :
    (intake.after samples).Within lo hi := by
  induction samples generalizing intake with
  | nil => exact h
  | cons s ss ih =>
      rw [heeded_cons] at hsamples
      refine ih (h.step hc fun hok => ?_) (by rwa [rule_process]) fun r hr => ?_
      · rw [if_pos hok] at hsamples
        exact hsamples s List.mem_cons_self
      · split at hsamples
        · exact hsamples r (List.mem_cons_of_mem _ hr)
        · exact hsamples r hr

/-! ## The main theorem -/

omit [DivisionRing K] [IsStrictOrderedRing K] in
/-- Among some samples there are one of the least and one of the greatest pressure. -/
theorem exists_extreme_pressures {heeded : List (Sample K)} (hne : heeded ≠ []) :
    ∃ low ∈ heeded, ∃ high ∈ heeded,
      ∀ r ∈ heeded, r.pressure ∈ Set.Icc low.pressure high.pressure :=
  Exact.exists_extremes Sample.pressure hne

/-- **Smoothing never overshoots.** With exact arithmetic, let the pressure not be smoothed or the
newest sample have no more than the whole weight. Whatever the samples are, if one of them is kept,
then its pressure lies between the least and the greatest of those that came in with it and with the
samples before that were not refused, whether or not these were dropped. With a coefficient of zero
or one it is the one that came in. -/
theorem smoothing_neverOvershoots {rule : Rule K} (hc : rule.smoothing = 0 ∨ 1 ≤ rule.smoothing)
    {i : ℕ} {v : Sample K} (h : (processEach { rule } samples)[i]? = some (.ok (some v))) :
    let heeded := heeded { rule } (samples.take (i + 1))
    (∃ low ∈ heeded, ∃ high ∈ heeded,
      (∀ r ∈ heeded, low.pressure ≤ r.pressure ∧ r.pressure ≤ high.pressure) ∧
      low.pressure ≤ v.pressure ∧ v.pressure ≤ high.pressure) ∧
    (rule.smoothing = 0 ∨ rule.smoothing = 1 →
      ∃ s, samples[i]? = some s ∧ v.pressure = s.pressure) := by
  obtain ⟨s, hs, hheeded, hv⟩ := pressure_of_kept h
  rw [hheeded]
  obtain ⟨low, hlow, high, hhigh, hbounds⟩ :=
    exists_extreme_pressures (List.concat_ne_nil s (heeded { rule } (samples.take i)))
  refine ⟨⟨low, hlow, high, hhigh, hbounds, ?_⟩, fun hplain => ⟨s, hs, ?_⟩⟩
  · -- A new intake remembers nothing, so it is within any bounds.
    have hstart : Within ({ rule } : Intake K) low.pressure high.pressure := nofun
    have hwithin := hstart.after hc fun r hr => hbounds r (List.mem_append_left _ hr)
    rw [hv]
    exact smoothed_mem_Icc hc hwithin (hbounds s (List.mem_append_right _ List.mem_cons_self))
  · rw [hv, smoothed_eq_self hplain]

/-- A new sample has one of four shares, and the video starts late. -/
def quarter : Rule ℚ := { shift := 0, start := 7, stop := none, mount := none, smoothing := 4 }

/-- A reading of nothing but a pressure. -/
def pressed (time : Micros) (pressure : ℚ) : Sample ℚ :=
  { Sample.zero with time := time, pressure := pressure }

/-- The first sample is dropped, the second one is refused. -/
def gust : List (Sample ℚ) := [pressed 5 1000, pressed 3 900, pressed 10 1004]

/-- The last sample is kept with a pressure between its own and that of the first one. -/
theorem smoothing_of_gust :
    (quarter.smoothing = 0 ∨ 1 ≤ quarter.smoothing) ∧
    (processEach { rule := quarter } gust)[2]? = some (.ok (some (pressed 10 1001))) ∧
    heeded { rule := quarter } (gust.take 3) = [pressed 5 1000, pressed 10 1004] ∧
    ∃ low ∈ [pressed 5 1000, pressed 10 1004], ∃ high ∈ [pressed 5 1000, pressed 10 1004],
      low.pressure ≤ (pressed 10 1001).pressure ∧ (pressed 10 1001).pressure ≤ high.pressure := by
  have hc : quarter.smoothing = 0 ∨ 1 ≤ quarter.smoothing := .inr (by decide +kernel)
  have hkept : (processEach { rule := quarter } gust)[2]?
      = some (.ok (some (pressed 10 1001))) := by
    decide +kernel
  have hheeded : heeded { rule := quarter } (gust.take 3) = [pressed 5 1000, pressed 10 1004] := by
    decide +kernel
  obtain ⟨⟨low, hlow, high, hhigh, -, hle⟩, -⟩ := smoothing_neverOvershoots hc hkept
  rw [hheeded] at hlow hhigh
  exact ⟨hc, hkept, hheeded, low, hlow, high, hhigh, hle⟩

end RideHud.Intake
