import RideHud.Proofs.Settings.Check
import RideHud.Proofs.Settings.Repair

/-!
# Loaded mounts are rotations

A mount is scaled to norm one unless it has it already, so the exact norm of a loaded mount is one
but for rounding errors. That fails where the squares of the components overflow, as the mount is
then left as it is, and only there (`load_mount_isRotation_iff`), unless the components are so small
that next to nothing is left of their squares. Both kinds of mounts pass the checks
(`load_distorted_mounts`).
-/

namespace RideHud.Settings

open Binary64

variable {format : Format} {text : String} {s written : Settings} {q : Quat Float}

/-! ## Norms -/

/-- The exact norm of a quaternion is one, but for rounding errors. -/
def IsRotation (q : Quat Float) : Prop := |q.exactNorm - 1| ≤ 1e-9

theorem isRotation_of_exactSq (h : |q.exactSq - 1| ≤ 1e-9) : IsRotation q :=
  (abs_sqrt_sub_one_le q.exactSq_nonneg).trans h

/-- The squares of a rotation do not overflow. -/
theorem IsRotation.isFinite_sumSq (h : IsRotation q) (hq : q.Finite) : q.sumSq.isFinite := by
  refine Quat.isFinite_sumSq hq ?_
  have hle : √q.exactSq ≤ 2 := by
    have hhigh := (abs_le.mp h).2
    rw [Quat.exactNorm] at hhigh
    norm_num at hhigh
    linarith
  have hsquare := (Real.sqrt_le_iff.mp hle).2
  norm_num at hsquare
  exact hsquare

theorem not_isRotation_of_overflow (hq : q.Finite) (h : q.sumSq.isFinite = false) :
    ¬ IsRotation q := fun hrotation => by
  rw [hrotation.isFinite_sumSq hq] at h
  cases h

/-! ## Repaired mounts -/

/-- Whether a mount is given, but with components of whose squares next to nothing is left. -/
def isVanishing (q : Quat Float) : Bool := !isUnset q && q.toList.all fun c => c.abs < 1e-156

/-- The limit below which next to nothing is left of squares. -/
theorem vanishing_spec : (1e-156 : Float).isFinite ∧ 2 ^ (-519 : ℤ) ≤ value 1e-156 := by
  refine le_ofScientific (by norm_num) ?_
  calc (2 : ℝ) ^ (-519 : ℤ) = (2 ^ (-173 : ℤ)) ^ (3 : ℤ) := by rw [← zpow_mul]; norm_num
    _ ≤ (10 ^ (-52 : ℤ)) ^ (3 : ℤ) := zpow_le_zpow_left₀ (by norm_num) (by norm_num) (by norm_num)
    _ = 10 ^ (-(156 : ℕ) : ℤ) := by rw [← zpow_mul]; norm_num

/-- What stands for a mount that is not given is a rotation. -/
theorem isRotation_one : IsRotation Quat.one :=
  isRotation_of_exactSq ((Quat.exactSq_of_norm_counts_as_one (by decide +kernel)
    (by decide +kernel)).trans (by norm_num))

/-- A repaired mount is a rotation if its squares did not overflow. -/
theorem isRotation_repairedMount (hq : isVanishing q = false) (h : q.sumSq.isFinite) :
    IsRotation (repairedMount q) := by
  have hnorm := Quat.isFinite_sqrt_sumSq h
  unfold repairedMount
  split
  · exact isRotation_one
  · next hset =>
      split
      · have hall : (q.toList.all fun c => c.abs < 1e-156) = false := by
          simpa [isVanishing, hset] using hq
        have hlarge :=
          le_norm_of_all_eq_false (by norm_num) (by norm_num) vanishing_spec hall hnorm
        obtain ⟨hfinite, herror⟩ := Quat.exactSq_error (by norm_num) hnorm hlarge
        have hpos : (0 : ℝ) < 2 ^ (-519 : ℤ) := by positivity
        have hscaled :=
          (Quat.exactSq_divide (by norm_num) hfinite hnorm (hpos.trans_le hlarge) herror).2
        exact isRotation_of_exactSq (hscaled.trans (by norm_num))
      · next hkept =>
          rw [hnorm, Bool.true_and, decide_eq_true_iff] at hkept
          refine isRotation_of_exactSq ((Quat.exactSq_of_norm_counts_as_one hnorm hkept).trans ?_)
          norm_num

/-- A mount whose squares overflow is kept. -/
theorem repairedMount_of_overflow (hset : isUnset q = false) (h : q.sumSq.isFinite = false) :
    repairedMount q = q := by
  have hnorm : q.sumSq.sqrt.isFinite = false := by
    by_contra hfinite
    rw [(isFinite_of_sqrt (by simpa using hfinite)).1] at h
    cases h
  rw [repairedMount, if_neg (by simpa using hset), hnorm, Bool.false_and, if_neg Bool.false_ne_true]

/-- The squares of a mount that is not given do not overflow. -/
theorem isFinite_sumSq_of_isUnset (h : isUnset q) : q.sumSq.isFinite := by
  have hq : q.Finite := by
    have hzeros := h
    simp only [isUnset, Bool.and_eq_true] at hzeros
    obtain ⟨⟨⟨hw, hx⟩, hy⟩, hz⟩ := hzeros
    exact ⟨isFinite_of_beq hw isFinite_zero, isFinite_of_beq hx isFinite_zero,
      isFinite_of_beq hy isFinite_zero, isFinite_of_beq hz isFinite_zero⟩
  refine Quat.isFinite_sumSq hq ?_
  rw [exactSq_of_isUnset hq h]
  norm_num

/-! ## Loaded mounts -/

/-- **Loaded mounts are rotations.** Whatever components a text gives, in either format: what is
loaded has a mount of finite components, and its exact norm differs from one by a billionth at most
if and only if the squares of the components that are written do not overflow, unless these
components are given but so small that next to nothing is left of their squares. -/
theorem load_mount_isRotation_iff (h : load format text = .ok s)
    (hwritten : ofText? format text = some written)
    (hmount : isVanishing written.data.mount = false) :
    s.data.mount.Finite ∧ (IsRotation s.data.mount ↔ written.data.mount.sumSq.isFinite) := by
  obtain ⟨written', hwritten', rfl, hsensible⟩ := load_eq_ok_iff.mp h
  obtain rfl : written = written' := Option.some.inj (hwritten.symm.trans hwritten')
  have hfinite : written.repaired.data.mount.Finite :=
    ⟨hsensible.mount_w, hsensible.mount_x, hsensible.mount_y, hsensible.mount_z⟩
  refine ⟨hfinite, fun hrotation => ?_, isRotation_repairedMount hmount⟩
  by_contra hoverflow
  rw [Bool.not_eq_true] at hoverflow
  have hset : isUnset written.data.mount = false := by
    by_contra hunset
    rw [isFinite_sumSq_of_isUnset (by simpa using hunset)] at hoverflow
    cases hoverflow
  have hkept : written.repaired.data.mount = written.data.mount :=
    repairedMount_of_overflow hset hoverflow
  rw [hkept] at hrotation hfinite
  exact not_isRotation_of_overflow hfinite hoverflow hrotation

/-- The mount that is written is faint, but its squares are not lost. -/
theorem load_mount_faint :
    ∃ s, load .toml "[data.imu_orientation]\nw = 3e-155\nx = -4e-155\n" = .ok s ∧
      s.data.mount.Finite ∧ IsRotation s.data.mount := by
  have hwritten : ofText? .toml "[data.imu_orientation]\nw = 3e-155\nx = -4e-155\n"
      = some { data := { mount := ⟨3e-155, -4e-155, 0, 0⟩ } } := by decide +kernel
  have hsome : (load .toml "[data.imu_orientation]\nw = 3e-155\nx = -4e-155\n").toOption.isSome :=
    by decide +kernel
  obtain ⟨s, hs⟩ := Option.isSome_iff_exists.mp hsome
  have hload := load_of_toOption hs
  obtain ⟨hfinite, hrotation⟩ := load_mount_isRotation_iff hload hwritten (by decide +kernel)
  exact ⟨s, hload, hfinite, hrotation.mpr (by decide +kernel)⟩

/-- A mount whose squares overflow and one whose squares get lost are both loaded, but they are no
rotations. -/
theorem load_distorted_mounts :
    (∃ s, load .toml "[data.imu_orientation]\nw = 1e200\n" = .ok s ∧ ¬ IsRotation s.data.mount) ∧
      ∃ s, load .toml "[data.imu_orientation]\nw = 2e-162\n" = .ok s ∧
        ¬ IsRotation s.data.mount := by
  constructor
  · have hload : load .toml "[data.imu_orientation]\nw = 1e200\n"
        = .ok { data := { mount := ⟨1e200, 0, 0, 0⟩ } } := load_of_toOption (by decide +kernel)
    refine ⟨_, hload, not_isRotation_of_overflow ?_ (by decide +kernel)⟩
    exact ⟨by decide +kernel, by decide +kernel, by decide +kernel, by decide +kernel⟩
  · have hload : load .toml "[data.imu_orientation]\nw = 2e-162\n"
        = .ok { data := { mount := ⟨0.8997827589086392, 0, 0, 0⟩ } } :=
      load_of_toOption (by decide +kernel)
    refine ⟨_, hload, fun hrotation => ?_⟩
    have hw : |value 0.8997827589086392| ≤ 15 / 16 :=
      ((ofScientific_rounds 8997827589086392 true 16).nearest (by decide +kernel)).abs_le_of_abs_le
        ⟨15, -4, by norm_num, by norm_num, by norm_num, by norm_num⟩ (by norm_num)
    have hlow := (abs_le.mp hrotation).1
    rw [Quat.exactNorm, Quat.exactSq, value_zero, mul_zero, add_zero, add_zero, add_zero,
      Real.sqrt_mul_self_eq_abs] at hlow
    norm_num at hlow
    linarith

end RideHud.Settings
