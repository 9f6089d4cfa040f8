import RideHud.Proofs.Geometry.Norm
import RideHud.Settings.Check

/-!
# Repaired settings

Only the mount is repaired, and to repair it once more changes nothing (`repaired_repaired`), unless
all of its components are so small that their squares get lost.
-/

namespace RideHud.Settings

open Binary64

/-! ## Repaired mounts -/

/-- The mount in repaired settings. -/
def repairedMount (q : Quat Float) : Quat Float :=
  if isUnset q then Quat.one
  else if q.sumSq.sqrt.isFinite && 1e-12 < (q.sumSq.sqrt - 1).abs then q.divide q.sumSq.sqrt
  else q

/-- Only the mount is repaired. -/
theorem repaired_eq (s : Settings) :
    s.repaired = { s with data := { s.data with mount := repairedMount s.data.mount } } := rfl

/-- Whether a mount is given, but with components whose squares get lost. -/
def isFaint (q : Quat Float) : Bool := !isUnset q && q.toList.all fun c => c.abs < 1e-150

theorem repairedMount_one : repairedMount Quat.one = Quat.one := by decide +kernel

/-- A mount of zero is exactly zero. -/
theorem exactSq_of_isUnset {q : Quat Float} (hq : q.Finite) (h : isUnset q) : q.exactSq = 0 := by
  simp only [isUnset, Bool.and_eq_true] at h
  obtain ⟨⟨⟨hw, hx⟩, hy⟩, hz⟩ := h
  rw [beq_iff hq.w isFinite_zero, value_zero] at hw
  rw [beq_iff hq.x isFinite_zero, value_zero] at hx
  rw [beq_iff hq.y isFinite_zero, value_zero] at hy
  rw [beq_iff hq.z isFinite_zero, value_zero] at hz
  rw [Quat.exactSq, hw, hx, hy, hz]
  norm_num

/-- The limit below which squares get lost. -/
theorem faint_spec : (1e-150 : Float).isFinite ∧ 2 ^ (-500 : ℤ) ≤ value 1e-150 := by
  refine le_ofScientific (by norm_num) ?_
  calc (2 : ℝ) ^ (-500 : ℤ) = (2 ^ (-10 : ℤ)) ^ (50 : ℤ) := by rw [← zpow_mul]; norm_num
    _ ≤ (10 ^ (-3 : ℤ)) ^ (50 : ℤ) := zpow_le_zpow_left₀ (by norm_num) (by norm_num) (by norm_num)
    _ = 10 ^ (-(150 : ℕ) : ℤ) := by rw [← zpow_mul]; norm_num

/-- If not all components are smaller than a limit, one of them is not. -/
theorem exists_le_abs {q : Quat Float} {limit : Float} (hlimit : limit.isFinite)
    (hfinite : ∀ c ∈ q.toList, c.isFinite) (h : (q.toList.all fun c => c.abs < limit) = false) :
    ∃ c ∈ q.toList, value limit ≤ |value c| := by
  obtain ⟨c, hmem, hlarge⟩ := List.all_eq_false.mp h
  obtain ⟨habs, hvalue⟩ := abs_spec (hfinite c hmem)
  rw [decide_eq_true_eq, lt_iff habs hlimit, hvalue, not_lt] at hlarge
  exact ⟨c, hmem, hlarge⟩

/-- The norm of a mount is not lost if one of its components is not too small. -/
theorem le_norm_of_all_eq_false {q : Quat Float} {limit : Float} {e : ℤ} (hlow : -537 ≤ e)
    (hhigh : e ≤ 485) (hlimit : limit.isFinite ∧ 2 ^ e ≤ value limit)
    (hq : (q.toList.all fun c => c.abs < limit) = false) (h : q.sumSq.sqrt.isFinite) :
    2 ^ e ≤ value q.sumSq.sqrt := by
  have hsquares := Quat.value_sq_le_sumSq (isFinite_of_sqrt h).1
  obtain ⟨c, hmem, hc⟩ :=
    exists_le_abs hlimit.1 (fun c hc => (isFinite_of_mul (hsquares c hc).1).1) hq
  exact Quat.le_sqrt_sumSq hlow hhigh h hmem (hlimit.2.trans hc)

/-- A repaired mount is not changed when it is repaired. -/
theorem repairedMount_repairedMount {q : Quat Float} (hq : isFaint q = false) :
    repairedMount (repairedMount q) = repairedMount q := by
  by_cases hset : isUnset q
  · have hone : repairedMount q = Quat.one := if_pos hset
    rw [hone, repairedMount_one]
  · by_cases hnorm : (q.sumSq.sqrt.isFinite && 1e-12 < (q.sumSq.sqrt - 1).abs) = true
    · have hdivide : repairedMount q = q.divide q.sumSq.sqrt := by
        rw [repairedMount, if_neg hset, if_pos hnorm]
      rw [Bool.and_eq_true] at hnorm
      have hall : (q.toList.all fun c => c.abs < 1e-150) = false := by
        simpa [isFaint, hset] using hq
      have hlarge := le_norm_of_all_eq_false (by norm_num) (by norm_num) faint_spec hall hnorm.1
      obtain ⟨hfinite, herror⟩ := Quat.exactSq_error (by norm_num) hnorm.1 hlarge
      have hpos : (0 : ℝ) < 2 ^ (-500 : ℤ) := by positivity
      obtain ⟨hfinite', hscaled⟩ :=
        Quat.exactSq_divide (by norm_num) hfinite hnorm.1 (hpos.trans_le hlarge) herror
      have hclose := hscaled.trans (show _ ≤ (2 : ℝ) ^ (-44 : ℤ) by norm_num)
      rw [hdivide]
      generalize q.divide q.sumSq.sqrt = q' at *
      have hset' : ¬ isUnset q' := fun hzero => by
        rw [exactSq_of_isUnset hfinite' hzero] at hclose
        norm_num at hclose
      have hkept := Quat.norm_counts_as_one hfinite' hclose
      rw [repairedMount, if_neg hset', if_neg]
      simp [hkept]
    · have hsame : repairedMount q = q := by
        rw [repairedMount, if_neg hset, if_neg hnorm]
      rw [hsame, hsame]

/-- A faint mount is repaired twice. -/
example : repairedMount ⟨2e-162, 0, 0, 0⟩ ≠ Quat.one ∧
    repairedMount (repairedMount ⟨2e-162, 0, 0, 0⟩) = Quat.one := by decide +kernel

/-- **Repairing.** Repaired settings are not changed when they are repaired. -/
theorem repaired_repaired {s : Settings} (hmount : isFaint s.data.mount = false) :
    s.repaired.repaired = s.repaired := by
  rw [repaired_eq s.repaired, repaired_eq s, repairedMount_repairedMount hmount]

end RideHud.Settings
