import RideHud.Proofs.Geometry.Rotation

/-!
# Rotations from one direction to another

A quaternion turns a vector by a multiple of the vector, one of its own imaginary part and one of the
outer product of both (`rotate_ofParts`). If the imaginary part is orthogonal to the vector, the
second one is zero. So a direction is turned to another one by half the angle between them about
their outer product (`rotate_bisector`), and to the opposite one by half a turn about an axis that is
orthogonal to it (`rotate_halfTurn`). That axis need not be quite of length one, as what is nearly so
is not scaled (`normSq_normalized`), and the opposite direction is missed by as much.

* `between_eq_bisector`, `between_opposite`: which rotation is taken;
* `between_reaches`: where it turns the first direction to.
-/

namespace RideHud

open scoped RideHud.Exact

/-! ## Vectors -/

namespace Vec

section

variable {K : Type} [Field K] [LinearOrder K] (u v : Vec K)

/-- A vector turned round. -/
def opposite : Vec K := ⟨-u.x, -u.y, -u.z⟩

/-- What is to be added to the second vector to get the first one. -/
def difference : Vec K := ⟨u.x - v.x, u.y - v.y, u.z - v.z⟩

theorem dot_cross_left : (u.cross v).dot u = 0 := by
  simp only [dot, cross]
  ring

theorem dot_cross_right : (u.cross v).dot v = 0 := by
  simp only [dot, cross]
  ring

/-- The square of the length of an outer product. -/
theorem normSq_cross : (u.cross v).normSq = u.normSq * v.normSq - u.dot v * u.dot v := by
  simp only [normSq, dot, cross]
  ring

/-- An outer product times its first factor. -/
theorem cross_cross :
    (u.cross v).cross u = (v.scale u.normSq).add (u.scale (-u.dot v)) := by
  simp only [normSq, dot, cross, scale, add, mk.injEq]
  refine ⟨?_, ?_, ?_⟩ <;> ring

theorem dot_divide (k : K) : (u.divide k).dot v = u.dot v / k := by
  simp only [dot, divide]
  ring

theorem cross_divide (k : K) : (u.divide k).cross v = (u.cross v).divide k := by
  simp only [cross, divide, mk.injEq]
  refine ⟨?_, ?_, ?_⟩ <;> ring

theorem normSq_divide (k : K) : (u.divide k).normSq = u.normSq / (k * k) := by
  simp only [normSq, dot, divide]
  ring

theorem normSq_scale (k : K) : (u.scale k).normSq = k * k * u.normSq := by
  simp only [normSq, dot, scale]
  ring

end

variable {v a : Vec ℝ}

theorem normSq_nonneg (v : Vec ℝ) : 0 ≤ v.normSq :=
  add_nonneg (add_nonneg (mul_self_nonneg _) (mul_self_nonneg _)) (mul_self_nonneg _)

theorem norm_scale (k : ℝ) (v : Vec ℝ) : (v.scale k).norm = |k| * v.norm := by
  show √(v.scale k).normSq = |k| * √v.normSq
  rw [normSq_scale, Real.sqrt_mul (mul_self_nonneg k), Real.sqrt_mul_self_eq_abs]

/-- A vector of length one is its direction. -/
theorem normalized_of_normSq (h : v.normSq = 1) : v.normalized = v := by
  rw [normalized, if_pos]
  rw [Exact.one_eq, h, sub_self, Exact.negligible_iff, abs_zero]
  norm_num

/-- A direction is orthogonal to what the vector is orthogonal to. -/
theorem dot_normalized (h : v.dot a = 0) : v.normalized.dot a = 0 := by
  unfold normalized
  split
  · exact h
  · split
    · simp [zero, dot, Exact.zero_eq]
    · rw [dot_divide, h, zero_div]

/-- **A direction counts as of length one**, unless there is none. -/
theorem normSq_normalized (h : 1e-12 < v.normSq) : |v.normalized.normSq - 1| ≤ 1e-12 := by
  have hlarge : ¬Scalar.negligible v.normSq = true := by
    rwa [Exact.negligible_iff_of_nonneg v.normSq_nonneg, not_le]
  have hpos : 0 < v.normSq := lt_trans (by norm_num) h
  unfold normalized
  split
  · next hone => rwa [Exact.one_eq, Exact.negligible_iff] at hone
  · rw [normSq_divide]
    have hsqrt : Elementary.sqrt v.normSq * Elementary.sqrt v.normSq = v.normSq :=
      Real.mul_self_sqrt hpos.le
    rw [hsqrt, div_self hpos.ne', sub_self, abs_zero]
    norm_num

end Vec

namespace Quat

/-! ## Turning about an axis -/

section

variable {K : Type} [Field K] [LinearOrder K]

theorem normSq_ofParts (w : K) (u : Vec K) : (ofParts w u).normSq = w * w + u.normSq := by
  simp only [normSq, ofParts, Vec.normSq, Vec.dot]
  ring

/-- What a vector is turned to, told without coordinates. -/
theorem rotate_ofParts (w : K) (u v : Vec K) :
    (ofParts w u).rotate v = ((v.scale (w * w - u.normSq)).add (u.scale (2 * u.dot v))).add
      ((u.cross v).scale (2 * w)) := by
  rw [rotate_eq]
  simp only [ofParts, Vec.normSq, Vec.dot, Vec.cross, Vec.scale, Vec.add, Vec.mk.injEq]
  refine ⟨?_, ?_, ?_⟩ <;> ring

/-- **Half a turn about an orthogonal axis** turns a vector round. -/
theorem rotate_halfTurn {u v : Vec K} (h : u.dot v = 0) :
    (ofParts 0 u).rotate v = v.scale (-u.normSq) := by
  rw [rotate_ofParts, h]
  simp only [Vec.scale, Vec.add, Vec.mk.injEq]
  refine ⟨?_, ?_, ?_⟩ <;> ring

variable {a b : Vec K} {s : K}

/-- **Half the angle about the outer product** of two directions turns the first one to the second.
Twice the cosine of half the angle is `s`. -/
theorem rotate_bisector [IsStrictOrderedRing K] (ha : a.normSq = 1) (hb : b.normSq = 1)
    (hs : s * s = 2 * (1 + a.dot b)) (hne : s ≠ 0) :
    (ofParts (s / 2) ((a.cross b).divide s)).normSq = 1 ∧
      (ofParts (s / 2) ((a.cross b).divide s)).rotate a = b := by
  have hsum : 1 + a.dot b ≠ 0 := fun hzero => by
    rw [hzero, mul_zero] at hs
    exact hne (mul_self_eq_zero.mp hs)
  -- The squares of cosine and sine of half the angle.
  have hcos : s / 2 * (s / 2) = (1 + a.dot b) / 2 := by
    linear_combination hs / 4
  have hsin : ((a.cross b).divide s).normSq = (1 - a.dot b) / 2 := by
    rw [Vec.normSq_divide, Vec.normSq_cross, ha, hb, hs]
    field_simp
    ring
  constructor
  · rw [normSq_ofParts, hcos, hsin]
    ring
  · rw [rotate_ofParts, hcos, hsin, Vec.dot_divide, Vec.dot_cross_left, Vec.cross_divide,
      Vec.cross_cross, ha]
    obtain ⟨x, y, z⟩ := b
    simp only [Vec.scale, Vec.add, Vec.divide, Vec.mk.injEq]
    refine ⟨?_, ?_, ?_⟩ <;> field_simp <;> ring

end

/-! ## The rotation that is taken -/

variable {a b : Vec ℝ}

/-- A quaternion of norm one is not scaled. -/
theorem normalized_of_normSq {q : Quat ℝ} (h : q.normSq = 1) : q.normalized = q := by
  rw [normalized, if_pos]
  rw [Exact.one_eq, h, sub_self, Exact.negligible_iff, abs_zero]
  norm_num

/-- Directions that are not opposite are turned by half their angle about their outer product. -/
theorem between_eq_bisector (ha : a.normSq = 1) (hb : b.normSq = 1) (h : 1e-12 < 1 + a.dot b) :
    ∃ s, s * s = 2 * (1 + a.dot b) ∧ s ≠ 0 ∧
      between a b = ofParts (s / 2) ((a.cross b).divide s) := by
  have hpos : 0 < 1 + a.dot b := lt_trans (by norm_num) h
  have hlarge : ¬Scalar.negligible (a.dot b + 1) = true := by
    rwa [add_comm, Exact.negligible_iff_of_nonneg hpos.le, not_le]
  have hs : √(2 * (1 + a.dot b)) * √(2 * (1 + a.dot b)) = 2 * (1 + a.dot b) :=
    Real.mul_self_sqrt (by positivity)
  have hne : √(2 * (1 + a.dot b)) ≠ 0 := (Real.sqrt_pos.mpr (by positivity)).ne'
  have hhalf : √(2 * (1 + a.dot b)) * 0.5 = √(2 * (1 + a.dot b)) / 2 := by
    norm_num
    ring
  refine ⟨_, hs, hne, ?_⟩
  simp only [between, Vec.normalized_of_normSq ha, Vec.normalized_of_normSq hb]
  rw [Exact.one_eq, if_neg hlarge, Exact.two_eq, add_comm (a.dot b) 1]
  show normalized (ofParts (√(2 * (1 + a.dot b)) * 0.5) _) = _
  rw [hhalf]
  exact normalized_of_normSq (rotate_bisector ha hb hs hne).1

/-- **The axis to reverse a direction about** is orthogonal to it, and counts as of length one,
whichever of the two axes it is taken from. -/
theorem reversingAxis_spec (ha : a.normSq = 1) :
    (reversingAxis a).dot a = 0 ∧ |(reversingAxis a).normSq - 1| ≤ 1e-12 := by
  have hx : (Vec.unitX.cross a).normSq = 1 - a.x * a.x := by
    simp only [Vec.normSq, Vec.dot, Vec.cross, Vec.unitX, Exact.zero_eq, Exact.one_eq] at ha ⊢
    linear_combination ha
  have hy : (Vec.unitY.cross a).normSq = 1 - a.y * a.y := by
    simp only [Vec.normSq, Vec.dot, Vec.cross, Vec.unitY, Exact.zero_eq, Exact.one_eq] at ha ⊢
    linear_combination ha
  unfold reversingAxis
  dsimp only
  split
  · next hnear =>
      -- A direction that is nearly on the first axis is far from the second one.
      rw [Exact.negligible_iff_of_nonneg (Vec.normSq_nonneg _), hx] at hnear
      have hfar : 1e-12 < (Vec.unitY.cross a).normSq := by
        rw [hy]
        simp only [Vec.normSq, Vec.dot] at ha
        have hz := mul_self_nonneg a.z
        norm_num at hnear ⊢
        linarith
      exact ⟨Vec.dot_normalized (Vec.dot_cross_right _ _), Vec.normSq_normalized hfar⟩
  · next hfar =>
      rw [Exact.negligible_iff_of_nonneg (Vec.normSq_nonneg _), not_le] at hfar
      exact ⟨Vec.dot_normalized (Vec.dot_cross_right _ _), Vec.normSq_normalized hfar⟩

/-- Opposite directions are turned half a turn about that axis. -/
theorem between_opposite (ha : a.normSq = 1) :
    between a a.opposite = ofParts 0 (reversingAxis a) := by
  have hopposite : a.opposite.normSq = 1 := by
    rw [← ha]
    simp only [Vec.normSq, Vec.dot, Vec.opposite]
    ring
  have hsmall : Scalar.negligible (a.dot a.opposite + 1) = true := by
    have hzero : a.dot a.opposite + 1 = 0 := by
      simp only [Vec.normSq, Vec.dot, Vec.opposite] at ha ⊢
      linear_combination -ha
    rw [hzero, Exact.negligible_iff, abs_zero]
    norm_num
  simp only [between, Vec.normalized_of_normSq ha, Vec.normalized_of_normSq hopposite]
  rw [Exact.one_eq, if_pos hsmall, Exact.zero_eq]

/-- **The rotation between two directions reaches its target.** With exact arithmetic, let two
vectors have length one. If the cosine of the angle between them is more than the tolerance above
minus one, then the rotation has norm one and turns the first vector to the second. If they are
opposite, then it turns the first vector to a point whose distance from the second is within the
tolerance, whichever axis it turns about. -/
theorem between_reaches (ha : a.norm = 1) (hb : b.norm = 1) :
    (1e-12 < 1 + a.dot b → (between a b).norm = 1 ∧ (between a b).rotate a = b) ∧
    (b = a.opposite → (((between a b).rotate a).difference b).norm ≤ 1e-12) := by
  rw [Vec.norm_eq_one_iff] at ha hb
  constructor
  · intro h
    obtain ⟨s, hs, hne, hbetween⟩ := between_eq_bisector ha hb h
    rw [norm_eq_one_iff, hbetween]
    exact rotate_bisector ha hb hs hne
  · rintro rfl
    obtain ⟨hdot, hclose⟩ := reversingAxis_spec ha
    have hmissed : ((between a a.opposite).rotate a).difference a.opposite
        = a.scale (1 - (reversingAxis a).normSq) := by
      rw [between_opposite ha, rotate_halfTurn hdot]
      simp only [Vec.difference, Vec.opposite, Vec.scale, Vec.mk.injEq]
      refine ⟨?_, ?_, ?_⟩ <;> ring
    rw [hmissed, Vec.norm_scale, Vec.norm_eq_one_iff.mpr ha, mul_one, abs_sub_comm]
    exact hclose

/-- A direction in the plane of the first two axes, told by the tangent of half its angle. -/
noncomputable def inclined (t : ℝ) : Vec ℝ :=
  ⟨(1 - t * t) / (1 + t * t), (t + t) / (1 + t * t), 0⟩

theorem norm_inclined (t : ℝ) : (inclined t).norm = 1 := by
  have hne : 1 + t * t ≠ 0 := (add_pos_of_pos_of_nonneg one_pos (mul_self_nonneg t)).ne'
  rw [Vec.norm_eq_one_iff, Vec.normSq, Vec.dot, inclined]
  field_simp
  ring

/-- One direction is turned to the third axis. The other one is turned round, and is so near to the
first axis that it is turned about one that is taken from the second. -/
theorem between_of_inclined : (inclined 0.5).norm = 1 ∧ (⟨0, 0, 1⟩ : Vec ℝ).norm = 1 ∧
    1e-12 < 1 + (inclined 0.5).dot ⟨0, 0, 1⟩ ∧ (between (inclined 0.5) ⟨0, 0, 1⟩).norm = 1 ∧
    (between (inclined 0.5) ⟨0, 0, 1⟩).rotate (inclined 0.5) = ⟨0, 0, 1⟩ ∧
    (inclined 1e-7).norm = 1 ∧ (inclined 1e-7).opposite.norm = 1 ∧
    (((between (inclined 1e-7) (inclined 1e-7).opposite).rotate (inclined 1e-7)).difference
      (inclined 1e-7).opposite).norm ≤ 1e-12 := by
  have hup : (⟨0, 0, 1⟩ : Vec ℝ).norm = 1 := by
    rw [Vec.norm_eq_one_iff]
    norm_num [Vec.normSq, Vec.dot]
  have hapart : 1e-12 < 1 + (inclined 0.5).dot ⟨0, 0, 1⟩ := by
    norm_num [Vec.dot, inclined]
  have hopposite : (inclined 1e-7).opposite.norm = 1 := by
    rw [Vec.norm_eq_one_iff]
    norm_num [Vec.normSq, Vec.dot, Vec.opposite, inclined]
  obtain ⟨hunit, hreach⟩ := (between_reaches (norm_inclined 0.5) hup).1 hapart
  exact ⟨norm_inclined 0.5, hup, hapart, hunit, hreach, norm_inclined 1e-7, hopposite,
    (between_reaches (norm_inclined 1e-7) hopposite).2 rfl⟩

end Quat

end RideHud
