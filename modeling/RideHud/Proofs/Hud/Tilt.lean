import Mathlib.Analysis.SpecialFunctions.Trigonometric.Inverse
import RideHud.Hud.Tilt
import RideHud.Proofs.Geometry.Rotation

/-!
# Tilt is an elevation

An orientation of norm one takes north to a point of the unit sphere. The direction that is risen to
the height of that point is one of the sphere again (`norm_risen`), and its angle from north is the
elevation of the height, without the sign (`angleBetween_risen`). So the tilt is the elevation of
where north goes (`tilt_eq_arcsin`), and whatever leaves that height as it is leaves the tilt.

* `tilt_isElevation`: the range and the sine of the tilt, and which rotations leave it.
-/

namespace RideHud

open scoped RideHud.Exact

theorem Vec.unitY_eq : (unitY : Vec ℝ) = ⟨0, 1, 0⟩ := by
  rw [unitY, Exact.zero_eq, Exact.one_eq]

namespace Quat

/-! ## Risen directions -/

variable {height : ℝ}

/-- A height on the unit sphere leaves room to the north. -/
theorem risen_eq (h : height * height ≤ 1) :
    risen height = ⟨0, √(1 - height * height), height⟩ := by
  rw [risen, Exact.zero_eq, Exact.one_eq, Exact.atLeast_eq_max, max_eq_right (sub_nonneg.mpr h)]
  rfl

/-- A direction that is risen has length one. -/
theorem norm_risen (h : height * height ≤ 1) : (risen height).norm = 1 := by
  rw [Vec.norm_eq_one_iff, risen_eq h, Vec.normSq, Vec.dot, Real.mul_self_sqrt (sub_nonneg.mpr h)]
  ring

/-- **The angle from north to a direction that is risen** is the elevation of its height, without the
sign. -/
theorem angleBetween_risen (h : height * height ≤ 1) :
    Vec.unitY.angleBetween (risen height) = Real.arcsin |height| := by
  have hcos : Vec.unitY.dot (risen height) / (Vec.unitY.norm * (risen height).norm)
      = √(1 - height * height) := by
    have hnorth : (Vec.unitY : Vec ℝ).norm = 1 := by
      rw [Vec.norm_eq_one_iff]
      norm_num [Vec.unitY_eq, Vec.normSq, Vec.dot]
    rw [hnorth, norm_risen h, risen_eq h, Vec.unitY_eq, Vec.dot]
    ring
  have hnonneg : 0 ≤ √(1 - height * height) := Real.sqrt_nonneg _
  have hle : √(1 - height * height) ≤ 1 :=
    Real.sqrt_le_one.mpr (sub_le_self 1 (mul_self_nonneg height))
  have hrange : √(1 - height * height) ∈ Set.Icc (-1) 1 := ⟨by linarith, hle⟩
  show Real.arccos (Scalar.clamp _ _ _) = _
  rw [Exact.one_eq, hcos, Exact.clamp_of_mem_Icc hrange, Real.arccos_eq_arcsin hnonneg,
    Real.sq_sqrt (sub_nonneg.mpr h), sub_sub_cancel, Real.sqrt_mul_self_eq_abs]

/-! ## The elevation of north -/

variable {q r : Quat ℝ}

/-- Where north goes is on the unit sphere. -/
theorem north_z_mul_self_le (h : q.norm = 1) : q.north.z * q.north.z ≤ 1 := by
  have hsphere : q.north.normSq = 1 := by
    rw [north, normSq_rotate, norm_eq_one_iff.mp h, Vec.unitY_eq]
    norm_num [Vec.normSq, Vec.dot]
  rw [Vec.normSq, Vec.dot] at hsphere
  linarith [mul_self_nonneg q.north.x, mul_self_nonneg q.north.y]

/-- **The tilt is the elevation of where north goes.** -/
theorem tilt_eq_arcsin (h : q.norm = 1) : q.tilt = Real.arcsin q.north.z := by
  rw [tilt, angleBetween_risen (north_z_mul_self_le h), Exact.zero_eq]
  split
  · next hneg => rw [abs_of_neg hneg, Real.arcsin_neg, neg_neg]
  · next hpos => rw [abs_of_nonneg (not_lt.mp hpos)]

/-- Orientations that take north to the same height are tilted alike. -/
theorem tilt_congr (hq : q.norm = 1) (hr : r.norm = 1) (h : r.north.z = q.north.z) :
    r.tilt = q.tilt := by
  rw [tilt_eq_arcsin hq, tilt_eq_arcsin hr, h]

/-! ## The same height -/

/-- The other quaternion of the same rotation. -/
def opposite (q : Quat ℝ) : Quat ℝ := ⟨-q.w, -q.x, -q.y, -q.z⟩

theorem norm_opposite (q : Quat ℝ) : q.opposite.norm = q.norm := by
  show √q.opposite.normSq = √q.normSq
  simp only [normSq, opposite, neg_mul_neg]

theorem rotate_opposite (q : Quat ℝ) (v : Vec ℝ) : q.opposite.rotate v = q.rotate v := by
  simp only [rotate_eq, opposite, neg_mul_neg]

/-- A rotation about the third axis keeps heights. -/
theorem rotate_z (hr : r.norm = 1) (hx : r.x = 0) (hy : r.y = 0) (v : Vec ℝ) :
    (r.rotate v).z = v.z := by
  have hsq := norm_eq_one_iff.mp hr
  rw [normSq, hx, hy] at hsq
  rw [rotate_eq, hx, hy]
  linear_combination v.z * hsq

/-- **The tilt is the elevation of north.** For every orientation of norm one, with real numbers: the
tilt is at most a quarter of a turn up or down, and its sine is the height at which north ends up.
So the other quaternion of the same rotation has the same tilt, and so has every orientation that is
followed by a rotation about the third axis. -/
theorem tilt_isElevation (h : q.norm = 1) :
    q.tilt ∈ Set.Icc (-(Real.pi / 2)) (Real.pi / 2) ∧
    Real.sin q.tilt = (q.rotate ⟨0, 1, 0⟩).z ∧
    q.opposite.tilt = q.tilt ∧
    ∀ r : Quat ℝ, r.norm = 1 → r.x = 0 → r.y = 0 → (r * q).tilt = q.tilt := by
  obtain ⟨hlow, hhigh⟩ := abs_le.mp (abs_le_one_iff_mul_self_le_one.mpr (north_z_mul_self_le h))
  refine ⟨?_, ?_, ?_, fun r hr hx hy => ?_⟩
  · rw [tilt_eq_arcsin h]
    exact Real.arcsin_mem_Icc _
  · rw [tilt_eq_arcsin h, Real.sin_arcsin hlow hhigh, north, Vec.unitY_eq]
  · refine tilt_congr h ((norm_opposite q).trans h) ?_
    rw [north, rotate_opposite, north]
  · have hproduct : (r * q).norm = 1 := by
      rw [norm_eq_one_iff] at *
      rw [normSq_mul, hr, h, one_mul]
    refine tilt_congr h hproduct ?_
    rw [north, rotate_mul, rotate_z hr hx hy, north]

/-- A rotation about the first axis, which lifts north. It is told by the tangent of a quarter of its
angle. -/
noncomputable def lifting (t : ℝ) : Quat ℝ :=
  ⟨(1 - t * t) / (1 + t * t), (t + t) / (1 + t * t), 0, 0⟩

/-- A rotation about the third axis, told likewise. -/
noncomputable def turning (t : ℝ) : Quat ℝ :=
  ⟨(1 - t * t) / (1 + t * t), 0, 0, (t + t) / (1 + t * t)⟩

/-- What is lifted stays so when it is turned about the third axis. -/
theorem tilt_of_lifting : (lifting (1 / 3)).norm = 1 ∧ (turning 0.5).norm = 1 ∧
    (turning 0.5).x = 0 ∧ (turning 0.5).y = 0 ∧
    (turning 0.5 * lifting (1 / 3)).tilt = (lifting (1 / 3)).tilt ∧
    Real.sin (lifting (1 / 3)).tilt = 24 / 25 ∧ (lifting (1 / 3)).tilt ≤ Real.pi / 2 := by
  have hlifting : (lifting (1 / 3)).norm = 1 := by
    rw [norm_eq_one_iff]
    norm_num [normSq, lifting]
  have hturning : (turning 0.5).norm = 1 := by
    rw [norm_eq_one_iff]
    norm_num [normSq, turning]
  obtain ⟨hrange, hsin, -, hturn⟩ := tilt_isElevation hlifting
  refine ⟨hlifting, hturning, rfl, rfl, hturn _ hturning rfl rfl, hsin.trans ?_, hrange.2⟩
  rw [rotate_eq]
  norm_num [lifting]

end Quat

end RideHud
