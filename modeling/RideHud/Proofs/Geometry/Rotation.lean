import Mathlib.Algebra.Quaternion
import RideHud.Geometry.Quat
import RideHud.Proofs.Exact

/-!
# Rotations by quaternions

Without rounding, orientations are elements of the ring of quaternions and vectors are imaginary
ones (`toQuaternion`), and a vector is turned by a product (`toQuaternion_rotate`). So to turn by a
product is to turn twice, and lengths are stretched by the square of the norm, whatever the norm is.
The inverse is the one of the ring, unless a quaternion is nearly zero, and turns back.

* `rotate_eq`: the coordinates of a vector that is turned;
* `rotate_mul`, `dot_rotate`: turning by a product, and the inner product of what is turned;
* `rotate_rotate_conjugate`: a conjugate of norm one turns back;
* `turn_eq_rotate`: for a quaternion of norm one the cheaper formula gives the same;
* `mul_inverse`, `rotate_inverse_rotate`: the inverse;
* `rotation_isAction`: all of it, for quaternions of any norm.
-/

namespace RideHud

open scoped Quaternion RideHud.Exact

variable {K : Type} [Field K] [LinearOrder K]

/-! ## The ring of quaternions -/

/-- A vector as an imaginary element of the ring. -/
def Vec.toQuaternion (v : Vec K) : ℍ[K] := ⟨0, v.x, v.y, v.z⟩

theorem Vec.toQuaternion_injective : Function.Injective (toQuaternion (K := K)) := by
  rintro ⟨x, y, z⟩ ⟨x', y', z'⟩ h
  cases h
  rfl

/-- The length is one if its square is. -/
theorem Vec.norm_eq_one_iff {v : Vec ℝ} : v.norm = 1 ↔ v.normSq = 1 := Real.sqrt_eq_one

namespace Quat

/-- An orientation as an element of the ring. -/
def toQuaternion (q : Quat K) : ℍ[K] := ⟨q.w, q.x, q.y, q.z⟩

theorem toQuaternion_injective : Function.Injective (toQuaternion (K := K)) := by
  rintro ⟨w, x, y, z⟩ ⟨w', x', y', z'⟩ h
  cases h
  rfl

theorem toQuaternion_one : (one : Quat K).toQuaternion = 1 := by
  ext <;> simp [one, toQuaternion, Exact.zero_eq, Exact.one_eq]

theorem toQuaternion_mul (a b : Quat K) :
    (a * b).toQuaternion = a.toQuaternion * b.toQuaternion := by
  ext <;> simp <;> rfl

theorem toQuaternion_conjugate (q : Quat K) : q.conjugate.toQuaternion = star q.toQuaternion := by
  ext <;> simp <;> rfl

theorem toQuaternion_divide (q : Quat K) (k : K) :
    (q.divide k).toQuaternion = k⁻¹ • q.toQuaternion := by
  ext <;> exact div_eq_inv_mul _ _

theorem normSq_toQuaternion (q : Quat K) : Quaternion.normSq q.toQuaternion = q.normSq := by
  rw [Quaternion.normSq_def', normSq]
  simp only [toQuaternion]
  ring

theorem normSq_mul (a b : Quat K) : (a * b).normSq = a.normSq * b.normSq := by
  rw [← normSq_toQuaternion, toQuaternion_mul, map_mul, normSq_toQuaternion, normSq_toQuaternion]

theorem normSq_conjugate (q : Quat K) : q.conjugate.normSq = q.normSq := by
  rw [← normSq_toQuaternion, ← normSq_toQuaternion, toQuaternion_conjugate,
    Quaternion.normSq_star]

/-- The norm is one if its square is. -/
theorem norm_eq_one_iff {q : Quat ℝ} : q.norm = 1 ↔ q.normSq = 1 := Real.sqrt_eq_one

/-! ## Turning -/

/-- The coordinates of a vector that is turned. -/
theorem rotate_eq (q : Quat K) (v : Vec K) : q.rotate v =
    ⟨(q.w * q.w + q.x * q.x - q.y * q.y - q.z * q.z) * v.x
        + 2 * (q.x * q.y - q.w * q.z) * v.y + 2 * (q.x * q.z + q.w * q.y) * v.z,
      2 * (q.x * q.y + q.w * q.z) * v.x
        + (q.w * q.w - q.x * q.x + q.y * q.y - q.z * q.z) * v.y
        + 2 * (q.y * q.z - q.w * q.x) * v.z,
      2 * (q.x * q.z - q.w * q.y) * v.x + 2 * (q.y * q.z + q.w * q.x) * v.y
        + (q.w * q.w - q.x * q.x - q.y * q.y + q.z * q.z) * v.z⟩ := by
  show (mul (mul q (ofParts _ v)) q.conjugate).imaginary = _
  simp only [mul, ofParts, conjugate, imaginary, Exact.zero_eq, Vec.mk.injEq]
  refine ⟨?_, ?_, ?_⟩ <;> ring

/-- **A vector is turned by a product**, which is imaginary again. -/
theorem toQuaternion_rotate (q : Quat K) (v : Vec K) :
    (q.rotate v).toQuaternion = q.toQuaternion * v.toQuaternion * star q.toQuaternion := by
  rw [rotate_eq]
  ext
  all_goals
    simp only [Quaternion.re_mul, Quaternion.imI_mul, Quaternion.imJ_mul, Quaternion.imK_mul,
      Quaternion.re_star, Quaternion.imI_star, Quaternion.imJ_star, Quaternion.imK_star]
    simp only [toQuaternion, Vec.toQuaternion]
    ring

/-- To turn by a product is to turn twice. -/
theorem rotate_mul (a b : Quat K) (v : Vec K) : (a * b).rotate v = a.rotate (b.rotate v) := by
  apply Vec.toQuaternion_injective
  rw [toQuaternion_rotate, toQuaternion_rotate, toQuaternion_rotate, toQuaternion_mul, star_mul]
  simp only [mul_assoc]

/-- **Turning stretches inner products** by the fourth power of the norm. -/
theorem dot_rotate (q : Quat K) (u v : Vec K) :
    (q.rotate u).dot (q.rotate v) = q.normSq * q.normSq * u.dot v := by
  rw [rotate_eq, rotate_eq, Vec.dot, Vec.dot, normSq]
  ring

/-- Turning stretches by the square of the norm. -/
theorem normSq_rotate (q : Quat K) (v : Vec K) :
    (q.rotate v).normSq = q.normSq * q.normSq * v.normSq := dot_rotate q v v

/-- The rotation that moves nothing. -/
theorem rotate_one (v : Vec K) : one.rotate v = v := by
  apply Vec.toQuaternion_injective
  rw [toQuaternion_rotate, toQuaternion_one, star_one, one_mul, mul_one]

variable {q : Quat K}

/-- A conjugate of norm one turns back. -/
theorem rotate_rotate_conjugate (h : q.normSq = 1) (v : Vec K) :
    q.rotate (q.conjugate.rotate v) = v := by
  have hone : q.toQuaternion * star q.toQuaternion = 1 := by
    rw [Quaternion.self_mul_star, normSq_toQuaternion, h, Quaternion.coe_one]
  apply Vec.toQuaternion_injective
  calc (q.rotate (q.conjugate.rotate v)).toQuaternion
      = q.toQuaternion * (star q.toQuaternion * v.toQuaternion * q.toQuaternion)
          * star q.toQuaternion := by
        rw [toQuaternion_rotate, toQuaternion_rotate, toQuaternion_conjugate, star_star]
    _ = q.toQuaternion * star q.toQuaternion * v.toQuaternion
          * (q.toQuaternion * star q.toQuaternion) := by
        simp only [mul_assoc]
    _ = v.toQuaternion := by rw [hone, one_mul, mul_one]

/-- **With norm one, the cheaper formula gives the same.** -/
theorem turn_eq_rotate (h : q.normSq = 1) (v : Vec K) : q.turn v = q.rotate v := by
  rw [normSq] at h
  rw [rotate_eq]
  simp only [turn, imaginary, Vec.add, Vec.scale, Vec.cross, Exact.two_eq, Vec.mk.injEq]
  refine ⟨?_, ?_, ?_⟩
  · linear_combination (-v.x) * h
  · linear_combination (-v.y) * h
  · linear_combination (-v.z) * h

/-! ## Turning back -/

variable [IsStrictOrderedRing K]

theorem normSq_nonneg (q : Quat K) : 0 ≤ q.normSq :=
  normSq_toQuaternion q ▸ Quaternion.normSq_nonneg

/-- Unless a quaternion is nearly zero, its inverse is the one of the ring. -/
theorem toQuaternion_inverse (h : 1e-12 < q.normSq) :
    q.inverse.toQuaternion = q.toQuaternion⁻¹ := by
  have hlarge : ¬Scalar.negligible q.normSq = true := by
    rwa [Exact.negligible_iff_of_nonneg q.normSq_nonneg, not_le]
  rw [inverse, if_neg hlarge, toQuaternion_divide, toQuaternion_conjugate, Quaternion.inv_def,
    normSq_toQuaternion]

theorem toQuaternion_ne_zero (h : 1e-12 < q.normSq) : q.toQuaternion ≠ 0 := by
  rw [← Quaternion.normSq_ne_zero, normSq_toQuaternion]
  exact (lt_trans (by norm_num) h).ne'

/-- A quaternion times its inverse is one. -/
theorem mul_inverse (h : 1e-12 < q.normSq) : q * q.inverse = one := by
  apply toQuaternion_injective
  rw [toQuaternion_mul, toQuaternion_inverse h, toQuaternion_one,
    mul_inv_cancel₀ (toQuaternion_ne_zero h)]

theorem inverse_mul (h : 1e-12 < q.normSq) : q.inverse * q = one := by
  apply toQuaternion_injective
  rw [toQuaternion_mul, toQuaternion_inverse h, toQuaternion_one,
    inv_mul_cancel₀ (toQuaternion_ne_zero h)]

/-- **The inverse turns back.** -/
theorem rotate_inverse_rotate (h : 1e-12 < q.normSq) (v : Vec K) :
    q.inverse.rotate (q.rotate v) = v := by
  rw [← rotate_mul, inverse_mul h, rotate_one]

/-- **Turning is an action that can be undone.** With exact arithmetic, and for quaternions of any
norm: their product is that of the ring of quaternions; to turn by a product is to turn twice; inner
products are stretched by the fourth power of the norm; and unless the square of the norm is within
the tolerance, the inverse turns back, and is an inverse for the product. -/
theorem rotation_isAction (a b : Quat K) (u v : Vec K) :
    (a * b).toQuaternion = a.toQuaternion * b.toQuaternion ∧
    (a * b).rotate v = a.rotate (b.rotate v) ∧
    (a.rotate u).dot (a.rotate v) = a.normSq ^ 2 * u.dot v ∧
    ∀ q : Quat K, 1e-12 < q.normSq →
      q.inverse.rotate (q.rotate v) = v ∧ q * q.inverse = one := by
  refine ⟨toQuaternion_mul a b, rotate_mul a b v, ?_, fun q h =>
    ⟨rotate_inverse_rotate h v, mul_inverse h⟩⟩
  rw [dot_rotate, sq]

/-- A quaternion with all components, whose norm is not one. -/
def skew : Quat ℚ := ⟨1, -2, 3, 4⟩

/-- What it turns an axis to is not of length one, and its inverse turns that back. -/
theorem rotate_skew : 1e-12 < skew.normSq ∧ skew.normSq = 30 ∧
    skew.rotate ⟨1, 0, 0⟩ = ⟨-20, -4, -22⟩ ∧
    skew.inverse.rotate ⟨-20, -4, -22⟩ = ⟨1, 0, 0⟩ ∧ skew * skew.inverse = one := by
  have hlarge : 1e-12 < skew.normSq := by decide +kernel
  have hrotate : skew.rotate ⟨1, 0, 0⟩ = ⟨-20, -4, -22⟩ := by decide +kernel
  obtain ⟨-, -, -, hback⟩ := rotation_isAction skew skew ⟨0, 1, 0⟩ ⟨1, 0, 0⟩
  obtain ⟨hrotate', hone⟩ := hback skew hlarge
  rw [hrotate] at hrotate'
  exact ⟨hlarge, by decide +kernel, hrotate, hrotate', hone⟩

end Quat

end RideHud
