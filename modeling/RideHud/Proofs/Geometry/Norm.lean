import RideHud.Geometry.Quat
import RideHud.Proofs.Binary64.Decimal

/-!
# Rounded norms

The norm of a quaternion is computed with rounding errors, and so is the quaternion scaled to norm
one. Unless the norm is so small that its square gets lost, the exact norm of the scaled quaternion
is very close to one (`exactSq_divide`), and the computed one counts as one (`norm_counts_as_one`).
If the computed norm of any quaternion counts as one, the exact one is very close to one
(`exactSq_of_norm_counts_as_one`).
-/

namespace RideHud

open Binary64

namespace Binary64

/-! ## Operations with finite results -/

section

variable {x y : Float}

theorem unpack_pack_nan : (Float.Model.pack .notANumber).unpack = .notANumber := rfl

/-- Factors of a finite product are finite. -/
theorem isFinite_of_mul (h : (x * y).isFinite) : x.isFinite ∧ y.isFinite := by
  replace h : (Float.Model.pack (.mul .binary64 x.toModel.unpack y.toModel.unpack)).unpack.isFinite
    = true := h
  show x.toModel.unpack.isFinite = true ∧ y.toModel.unpack.isFinite = true
  generalize x.toModel.unpack = u at *
  generalize y.toModel.unpack = u' at *
  cases u <;> cases u' <;> first | exact ⟨rfl, rfl⟩ | skip
  all_goals
    simp only [Float.Model.UnpackedFloat.mul, unpack_pack_nan, unpack_pack_infinity] at h
    cases h

/-- Summands of a finite sum are finite. -/
theorem isFinite_of_add (h : (x + y).isFinite) : x.isFinite ∧ y.isFinite := by
  replace h : (Float.Model.pack (.add .binary64 x.toModel.unpack y.toModel.unpack)).unpack.isFinite
    = true := h
  show x.toModel.unpack.isFinite = true ∧ y.toModel.unpack.isFinite = true
  generalize x.toModel.unpack = u at *
  generalize y.toModel.unpack = u' at *
  cases u <;> cases u' <;> first | exact ⟨rfl, rfl⟩ | skip
  all_goals
    simp only [Float.Model.UnpackedFloat.add] at h
    first
    | cases h
    | (rw [unpack_pack_infinity] at h; cases h)
    | (split at h <;> first | cases h | (rw [unpack_pack_infinity] at h; cases h))

/-- A number with a finite root is finite and not negative. -/
theorem isFinite_of_sqrt (h : x.sqrt.isFinite) : x.isFinite ∧ 0 ≤ value x := by
  replace h : (Float.Model.pack (.sqrt .binary64 x.toModel.unpack)).unpack.isFinite = true := h
  show x.toModel.unpack.isFinite = true ∧ 0 ≤ unpackedValue x.toModel.unpack
  have hcanonical := (unpack_spec x.toModel).2
  generalize x.toModel.unpack = u at *
  rcases u with s | _ | s | ⟨_ | _, m, e, hm⟩
  · cases s <;> cases h
  · cases h
  · exact ⟨rfl, le_rfl⟩
  · simp only [Float.Model.UnpackedFloat.sqrt, unpack_pack_nan] at h
    cases h
  · exact ⟨rfl, (hcanonical _ _ _ _ rfl).value_pos.le⟩

end

/-! ## Errors -/

section

variable {η : ℝ}

/-- The error of a rounded sum of two numbers with errors. -/
theorem add_error {a b A B s k c : ℝ} (hA : 0 ≤ A) (hB : 0 ≤ B) (ha : |a - A| ≤ k * A + c)
    (hb : |b - B| ≤ k * B + c) (hs : |s - (a + b)| ≤ 2 ^ (-53 : ℤ) * |a + b| + η) :
    |s - (A + B)| ≤ (k + 2 ^ (-53 : ℤ) * (1 + k)) * (A + B) + (2 + 2 ^ (-52 : ℤ)) * c + η := by
  have hsum : |a + b - (A + B)| ≤ k * (A + B) + 2 * c := by
    calc |a + b - (A + B)| = |(a - A) + (b - B)| := by ring_nf
      _ ≤ |a - A| + |b - B| := abs_add_le _ _
      _ ≤ k * (A + B) + 2 * c := by linarith
  have hsize : |a + b| ≤ (1 + k) * (A + B) + 2 * c := by
    calc |a + b| = |(A + B) + (a + b - (A + B))| := by ring_nf
      _ ≤ |A + B| + |a + b - (A + B)| := abs_add_le _ _
      _ ≤ (1 + k) * (A + B) + 2 * c := by
          rw [abs_of_nonneg (by positivity)]
          linarith
  calc |s - (A + B)| = |(s - (a + b)) + (a + b - (A + B))| := by ring_nf
    _ ≤ |s - (a + b)| + |a + b - (A + B)| := abs_add_le _ _
    _ ≤ (2 ^ (-53 : ℤ) * |a + b| + η) + (k * (A + B) + 2 * c) := add_le_add hs hsum
    _ ≤ (2 ^ (-53 : ℤ) * ((1 + k) * (A + B) + 2 * c) + η) + (k * (A + B) + 2 * c) := by gcongr
    _ = (k + 2 ^ (-53 : ℤ) * (1 + k)) * (A + B) + (2 + 2 ^ (-52 : ℤ)) * c + η := by
        rw [show (-52 : ℤ) = 1 + -53 by norm_num, zpow_add₀ (by norm_num)]
        ring

/-- The error of a rounded sum of four squares. -/
theorem squares_error {a b c d p₁ p₂ p₃ p₄ s₁ s₂ s : ℝ} (hη : 0 ≤ η)
    (h₁ : |p₁ - a * a| ≤ 2 ^ (-53 : ℤ) * |a * a| + η)
    (h₂ : |p₂ - b * b| ≤ 2 ^ (-53 : ℤ) * |b * b| + η)
    (h₃ : |p₃ - c * c| ≤ 2 ^ (-53 : ℤ) * |c * c| + η)
    (h₄ : |p₄ - d * d| ≤ 2 ^ (-53 : ℤ) * |d * d| + η)
    (hs₁ : |s₁ - (p₁ + p₂)| ≤ 2 ^ (-53 : ℤ) * |p₁ + p₂| + η)
    (hs₂ : |s₂ - (s₁ + p₃)| ≤ 2 ^ (-53 : ℤ) * |s₁ + p₃| + η)
    (hs : |s - (s₂ + p₄)| ≤ 2 ^ (-53 : ℤ) * |s₂ + p₄| + η) :
    |s - (a * a + b * b + c * c + d * d)|
      ≤ 2 ^ (-49 : ℤ) * (a * a + b * b + c * c + d * d) + 22 * η := by
  have ha := mul_self_nonneg a
  have hb := mul_self_nonneg b
  have hc := mul_self_nonneg c
  have hd := mul_self_nonneg d
  rw [abs_of_nonneg ha] at h₁
  rw [abs_of_nonneg hb] at h₂
  rw [abs_of_nonneg hc] at h₃
  rw [abs_of_nonneg hd] at h₄
  have e₁ := add_error ha hb h₁ h₂ hs₁
  -- Every sum has about one more error than the one before it.
  have e₂ := add_error (k := 2 ^ (-51 : ℤ)) (c := 4 * η) (by positivity : 0 ≤ a * a + b * b) hc
    (e₁.trans (by norm_num; linarith)) (h₃.trans (by norm_num; linarith)) hs₂
  have e₃ := add_error (k := 2 ^ (-50 : ℤ)) (c := 10 * η)
    (by positivity : 0 ≤ a * a + b * b + c * c) hd
    (e₂.trans (by norm_num; linarith)) (h₄.trans (by norm_num; linarith)) hs
  refine e₃.trans ?_
  norm_num
  linarith

/-- The square of a rounded root is close to the number whose root it is, unless it is so small that
the error of the number is a considerable share of it. -/
theorem sqrt_error {S s n ε : ℝ} (hη : 0 ≤ η) (hs : |s - S| ≤ 2 ^ (-49 : ℤ) * S + 22 * η)
    (hn : |n - √s| ≤ 2 ^ (-53 : ℤ) * |√s| + η) (hpos : 0 < n) (hnonneg : 0 ≤ s)
    (hroot : η ≤ 2 ^ (-60 : ℤ) * n) (hsquare : 22 * η ≤ ε * (n * n)) :
    |S - n * n| ≤ (2 ^ (-46 : ℤ) + 2 * ε) * (n * n) := by
  have ht : 0 ≤ √s := Real.sqrt_nonneg s
  have hsq : √s * √s = s := Real.mul_self_sqrt hnonneg
  rw [abs_of_nonneg ht] at hn
  generalize √s = t at *
  have hsquare₀ : 0 ≤ ε * (n * n) := (by positivity : 0 ≤ 22 * η).trans hsquare
  rw [add_mul, mul_assoc]
  generalize ε * (n * n) = lost at *
  norm_num at hs hn hroot ⊢
  -- The root is known up to a small share of itself, and so is its square.
  obtain ⟨hn₁, hn₂⟩ := abs_le.mp hn
  obtain ⟨hs₁, hs₂⟩ := abs_le.mp hs
  have hclose : |t - n| ≤ 1 / 2 ^ 51 * n := by
    rw [abs_le]
    constructor <;> norm_num <;> linarith
  have hsum : |t + n| ≤ 3 * n := by
    obtain ⟨-, h₂⟩ := abs_le.mp hclose
    rw [abs_of_nonneg (by linarith)]
    norm_num at h₂
    linarith
  have hdiff : |s - n * n| ≤ 1 / 2 ^ 49 * (n * n) := by
    calc |s - n * n| = |t - n| * |t + n| := by
          rw [← abs_mul, ← hsq]
          ring_nf
      _ ≤ (1 / 2 ^ 51 * n) * (3 * n) := by gcongr
      _ ≤ 1 / 2 ^ 49 * (n * n) := by nlinarith
  obtain ⟨hd₁, hd₂⟩ := abs_le.mp hdiff
  norm_num at hd₁ hd₂
  rw [abs_le]
  constructor <;> linarith

/-- The root of a number is nearer to one than the number. -/
theorem abs_sqrt_sub_one_le {a : ℝ} (ha : 0 ≤ a) : |√a - 1| ≤ |a - 1| := by
  have hroot := Real.sqrt_nonneg a
  calc |√a - 1| ≤ |√a - 1| * (√a + 1) := le_mul_of_one_le_right (abs_nonneg _) (by linarith)
    _ = |a - 1| := by
        rw [← abs_of_pos (by positivity : 0 < √a + 1), ← abs_mul]
        congr 1
        nlinarith [Real.mul_self_sqrt ha]

end

/-- Next to the share of a number that is lost, the error that the smallest numbers have is
negligible. -/
theorem least_error_le : (2 : ℝ) ^ (-1075 : ℤ) ≤ 2 ^ (-60 : ℤ) :=
  zpow_le_zpow_right₀ (by norm_num) (by norm_num)

section

variable {a r : ℝ}

/-- The error of a small rounded number. -/
theorem Nearest.error_le_of_abs_le (h : Nearest r a) (ha : |a| ≤ 2) : |r - a| ≤ 2 ^ (-51 : ℤ) := by
  have herror := h.error_le
  have hleast := least_error_le
  generalize (2 : ℝ) ^ (-1075 : ℤ) = η at herror hleast
  norm_num at herror hleast ⊢
  linarith

/-- The square of a small rounded number is close to the square of the number. -/
theorem Nearest.mul_self_error (h : Nearest r a) (ha : |a| ≤ 2) :
    |r * r - a * a| ≤ 2 ^ (-50 : ℤ) * (a * a) + 2 ^ (-56 : ℤ) := by
  have hr := h.error_le
  have hsmall := least_error_le
  have hη : (0 : ℝ) ≤ 2 ^ (-1075 : ℤ) := by positivity
  generalize (2 : ℝ) ^ (-1075 : ℤ) = η at hr hsmall hη
  have habs : |a| * |a| = a * a := abs_mul_abs_self a
  have hsum : |r + a| ≤ (2 + 2 ^ (-53 : ℤ)) * |a| + η := by
    calc |r + a| = |(r - a) + 2 * a| := by ring_nf
      _ ≤ |r - a| + |2 * a| := abs_add_le _ _
      _ ≤ (2 + 2 ^ (-53 : ℤ)) * |a| + η := by
          rw [abs_mul, abs_two]
          linarith
  have hnonneg := abs_nonneg a
  calc |r * r - a * a| = |r - a| * |r + a| := by
        rw [← abs_mul]
        ring_nf
    _ ≤ (2 ^ (-53 : ℤ) * |a| + η) * ((2 + 2 ^ (-53 : ℤ)) * |a| + η) := by gcongr
    _ ≤ 2 ^ (-50 : ℤ) * (a * a) + 2 ^ (-56 : ℤ) := by
        rw [← habs]
        norm_num at hsmall ⊢
        nlinarith

end

/-! ## Small numbers -/

theorem abs_le_two {a : ℝ} (h : a * a ≤ 4) : |a| ≤ 2 := by
  rw [← abs_two, ← sq_le_sq, sq]
  norm_num
  exact h

/-- No number is larger than two if the sum of the squares is not larger than four. -/
theorem abs_le_two_of_squares {a b c d : ℝ} (h : a * a + b * b + c * c + d * d ≤ 4) :
    (|a| ≤ 2 ∧ |b| ≤ 2) ∧ |c| ≤ 2 ∧ |d| ≤ 2 := by
  have ha := mul_self_nonneg a
  have hb := mul_self_nonneg b
  have hc := mul_self_nonneg c
  have hd := mul_self_nonneg d
  exact ⟨⟨abs_le_two (by linarith), abs_le_two (by linarith)⟩, abs_le_two (by linarith),
    abs_le_two (by linarith)⟩

/-- A result that is small is finite and small. -/
theorem small_of_rounds {x : Float} {y : ℝ} {k : ℕ} (h : Rounds x y) (hy : |y| ≤ k)
    (hk : k < 2 ^ 53) : x.isFinite ∧ |value x| ≤ k := by
  have hsize : (k : ℝ) < 2 ^ (53 : ℤ) := by exact_mod_cast hk
  have hfinite := h.finite ((hy.trans_lt hsize).trans
    (zpow_lt_zpow_right₀ (by norm_num) (by norm_num)))
  exact ⟨hfinite, (h.nearest hfinite).abs_le_of_abs_le (representable_natCast hk) hy⟩

/-- The square of a small quotient. -/
theorem divide_error {x n : Float} (hx : x.isFinite) (hn : n.isFinite) (hne : value n ≠ 0)
    (hsmall : |value x / value n| ≤ 2) :
    (x / n).isFinite ∧ |value (x / n) * value (x / n) - value x / value n * (value x / value n)|
      ≤ 2 ^ (-50 : ℤ) * (value x / value n * (value x / value n)) + 2 ^ (-56 : ℤ) := by
  have hrounds := div_rounds hx hn hne
  obtain ⟨hfinite, -⟩ := small_of_rounds (k := 2) hrounds hsmall (by norm_num)
  exact ⟨hfinite, (hrounds.nearest hfinite).mul_self_error hsmall⟩

end Binary64

namespace Quat

variable {q : Quat Float} {n : Float}

/-! ## Norms -/

/-- The sum of the squares, as it is computed. -/
def sumSq (q : Quat Float) : Float := q.w * q.w + q.x * q.x + q.y * q.y + q.z * q.z

/-- The sum of the squares of the values. -/
noncomputable def exactSq (q : Quat Float) : ℝ :=
  value q.w * value q.w + value q.x * value q.x + value q.y * value q.y + value q.z * value q.z

/-- The norm of the values. -/
noncomputable def exactNorm (q : Quat Float) : ℝ := √q.exactSq

theorem exactSq_nonneg (q : Quat Float) : 0 ≤ q.exactSq :=
  add_nonneg (add_nonneg (add_nonneg (mul_self_nonneg _) (mul_self_nonneg _)) (mul_self_nonneg _))
    (mul_self_nonneg _)

/-- All components are finite. -/
structure Finite (q : Quat Float) : Prop where
  w : q.w.isFinite
  x : q.x.isFinite
  y : q.y.isFinite
  z : q.z.isFinite

/-- The error of a finite sum of squares. -/
theorem sumSq_error (h : q.sumSq.isFinite) :
    q.Finite ∧ |value q.sumSq - q.exactSq| ≤ 2 ^ (-49 : ℤ) * q.exactSq + 22 * 2 ^ (-1075 : ℤ) := by
  obtain ⟨hs₂, hp₄⟩ := isFinite_of_add h
  obtain ⟨hs₁, hp₃⟩ := isFinite_of_add hs₂
  obtain ⟨hp₁, hp₂⟩ := isFinite_of_add hs₁
  have hw := (isFinite_of_mul hp₁).1
  have hx := (isFinite_of_mul hp₂).1
  have hy := (isFinite_of_mul hp₃).1
  have hz := (isFinite_of_mul hp₄).1
  refine ⟨⟨hw, hx, hy, hz⟩, ?_⟩
  exact squares_error (by positivity)
    ((mul_rounds hw hw).nearest hp₁).error_le ((mul_rounds hx hx).nearest hp₂).error_le
    ((mul_rounds hy hy).nearest hp₃).error_le ((mul_rounds hz hz).nearest hp₄).error_le
    ((add_rounds hp₁ hp₂).nearest hs₁).error_le ((add_rounds hs₁ hp₃).nearest hs₂).error_le
    ((add_rounds hs₂ hp₄).nearest h).error_le

/-- The exact square of the norm is close to the square of the computed norm, the closer the larger
that is. -/
theorem exactSq_error {e : ℤ} (he : -1000 ≤ e) (h : q.sumSq.sqrt.isFinite)
    (hlarge : 2 ^ e ≤ value q.sumSq.sqrt) :
    q.Finite ∧ |q.exactSq - value q.sumSq.sqrt * value q.sumSq.sqrt|
      ≤ (2 ^ (-46 : ℤ) + 2 * 2 ^ (-1070 - 2 * e))
        * (value q.sumSq.sqrt * value q.sumSq.sqrt) := by
  obtain ⟨hsum, hnonneg⟩ := isFinite_of_sqrt h
  obtain ⟨hfinite, herror⟩ := sumSq_error hsum
  have hpos : (0 : ℝ) < 2 ^ e := by positivity
  have hroot : 0 ≤ value q.sumSq.sqrt := hpos.le.trans hlarge
  refine ⟨hfinite, sqrt_error (by positivity) herror
    ((sqrt_rounds hsum hnonneg).nearest h).error_le (hpos.trans_le hlarge) hnonneg ?_ ?_⟩
  · calc (2 : ℝ) ^ (-1075 : ℤ) = 2 ^ (-60 : ℤ) * 2 ^ (-1015 : ℤ) := by
          rw [← zpow_add₀ (by norm_num)]
          norm_num
      _ ≤ 2 ^ (-60 : ℤ) * 2 ^ e := by
          gcongr
          · norm_num
          · omega
      _ ≤ 2 ^ (-60 : ℤ) * value q.sumSq.sqrt := by gcongr
  · calc 22 * (2 : ℝ) ^ (-1075 : ℤ) ≤ 2 ^ (5 : ℤ) * 2 ^ (-1075 : ℤ) := by
          gcongr
          norm_num
      _ = 2 ^ (-1070 - 2 * e) * (2 ^ e * 2 ^ e) := by
          rw [← zpow_add₀ (by norm_num), ← zpow_add₀ (by norm_num), ← zpow_add₀ (by norm_num)]
          congr 1
          ring
      _ ≤ 2 ^ (-1070 - 2 * e) * (value q.sumSq.sqrt * value q.sumSq.sqrt) := by gcongr

theorem value_mul_self_nonneg {x : Float} (h : (x * x).isFinite) : 0 ≤ value (x * x) := by
  have hx := (isFinite_of_mul h).1
  exact ((mul_rounds hx hx).nearest h).le_of_le representable_zero (mul_self_nonneg _)

/-- No square in the sum of the squares is larger than the sum. -/
theorem value_sq_le_sumSq (h : q.sumSq.isFinite) :
    ∀ c ∈ q.toList, (c * c).isFinite ∧ value (c * c) ≤ value q.sumSq := by
  obtain ⟨hs₂, hp₄⟩ := isFinite_of_add h
  obtain ⟨hs₁, hp₃⟩ := isFinite_of_add hs₂
  obtain ⟨hp₁, hp₂⟩ := isFinite_of_add hs₁
  -- Sums of squares do not become smaller.
  have hleft {x y : Float} (hs : (x + y).isFinite) (hy : 0 ≤ value y) :
      value x ≤ value (x + y) := by
    obtain ⟨hx, hy'⟩ := isFinite_of_add hs
    exact ((add_rounds hx hy').nearest hs).le_of_le (representable_value x) (by linarith)
  have hright {x y : Float} (hs : (x + y).isFinite) (hx : 0 ≤ value x) :
      value y ≤ value (x + y) := by
    obtain ⟨hx', hy⟩ := isFinite_of_add hs
    exact ((add_rounds hx' hy).nearest hs).le_of_le (representable_value y) (by linarith)
  have h₁ := hleft hs₁ (value_mul_self_nonneg hp₂)
  have h₂ := hright hs₁ (value_mul_self_nonneg hp₁)
  have h₃ := hleft hs₂ (value_mul_self_nonneg hp₃)
  have h₄ := hright hs₂ ((value_mul_self_nonneg hp₁).trans h₁)
  have h₅ := hleft h (value_mul_self_nonneg hp₄)
  have h₆ := hright h (((value_mul_self_nonneg hp₁).trans h₁).trans h₃)
  intro c hc
  simp only [Quat.toList, List.mem_cons, List.not_mem_nil, or_false] at hc
  rcases hc with rfl | rfl | rfl | rfl
  · exact ⟨hp₁, (h₁.trans h₃).trans h₅⟩
  · exact ⟨hp₂, (h₂.trans h₃).trans h₅⟩
  · exact ⟨hp₃, h₄.trans h₅⟩
  · exact ⟨hp₄, h₆⟩

/-- The computed norm is not smaller than any component, unless that is so small that its square
gets lost. -/
theorem le_sqrt_sumSq {e : ℤ} (hlow : -537 ≤ e) (hhigh : e ≤ 485) (h : q.sumSq.sqrt.isFinite)
    {c : Float} (hmem : c ∈ q.toList) (hc : 2 ^ e ≤ |value c|) : 2 ^ e ≤ value q.sumSq.sqrt := by
  obtain ⟨hsum, hnonneg⟩ := isFinite_of_sqrt h
  obtain ⟨hproduct, hle⟩ := value_sq_le_sumSq hsum c hmem
  have hfinite := (isFinite_of_mul hproduct).1
  have hpow : (2 : ℝ) ^ (e + e) = 2 ^ e * 2 ^ e := zpow_add₀ (by norm_num) e e
  -- The square of this component is in the sum, and the root of that is not smaller.
  have hsquare : (2 : ℝ) ^ (e + e) ≤ value (c * c) := by
    refine ((mul_rounds hfinite hfinite).nearest hproduct).le_of_le ?_ ?_
    · exact representable_two_zpow (by omega) (by omega)
    · calc (2 : ℝ) ^ (e + e) = 2 ^ e * 2 ^ e := hpow
        _ ≤ |value c| * |value c| := by gcongr
        _ = value c * value c := abs_mul_abs_self _
  refine ((sqrt_rounds hsum hnonneg).nearest h).le_of_le ?_ ?_
  · exact representable_two_zpow (by omega) (by omega)
  · rw [Real.le_sqrt (by positivity) hnonneg, sq, ← hpow]
    exact hsquare.trans hle

/-- The root of a finite sum of squares is finite. -/
theorem isFinite_sqrt_sumSq (h : q.sumSq.isFinite) : q.sumSq.sqrt.isFinite := by
  obtain ⟨hproduct, hle⟩ := value_sq_le_sumSq h q.w List.mem_cons_self
  have hnonneg := (value_mul_self_nonneg hproduct).trans hle
  refine (sqrt_rounds h hnonneg).finite ?_
  rw [abs_of_nonneg (Real.sqrt_nonneg _), Real.sqrt_lt' (by positivity)]
  have hmax := (le_abs_self _).trans (representable_value q.sumSq).abs_le
  calc value q.sumSq ≤ (2 ^ 53 - 1) * 2 ^ (971 : ℤ) := hmax
    _ ≤ 2 ^ (53 : ℤ) * 2 ^ (971 : ℤ) := by
        gcongr
        norm_num
    _ = 2 ^ (1024 : ℤ) := by
        rw [← zpow_add₀ (by norm_num)]
        norm_num
    _ < 2 ^ (2046 : ℤ) := zpow_lt_zpow_right₀ (by norm_num) (by norm_num)
    _ = (2 ^ (1023 : ℤ)) ^ 2 := by
        rw [sq, ← zpow_add₀ (by norm_num)]
        norm_num

/-- **Scaling.** A quaternion divided by a number that is close to its norm has a norm close to
one. -/
theorem exactSq_divide {δ : ℝ} (hδ : δ ≤ 1) (hq : q.Finite) (hn : n.isFinite) (hpos : 0 < value n)
    (hclose : |q.exactSq - value n * value n| ≤ δ * (value n * value n)) :
    (q.divide n).Finite ∧ |(q.divide n).exactSq - 1| ≤ δ + 2 ^ (-48 : ℤ) := by
  have hsquare : 0 < value n * value n := by positivity
  have hw' := divide_error hq.w hn hpos.ne'
  have hx' := divide_error hq.x hn hpos.ne'
  have hy' := divide_error hq.y hn hpos.ne'
  have hz' := divide_error hq.z hn hpos.ne'
  -- The exact quotients.
  obtain ⟨a, ha⟩ : ∃ a, a = value q.w / value n := ⟨_, rfl⟩
  obtain ⟨b, hb⟩ : ∃ b, b = value q.x / value n := ⟨_, rfl⟩
  obtain ⟨c, hc⟩ : ∃ c, c = value q.y / value n := ⟨_, rfl⟩
  obtain ⟨d, hd⟩ : ∃ d, d = value q.z / value n := ⟨_, rfl⟩
  rw [← ha] at hw'
  rw [← hb] at hx'
  rw [← hc] at hy'
  rw [← hd] at hz'
  have hsum : |a * a + b * b + c * c + d * d - 1| ≤ δ := by
    have hratio : a * a + b * b + c * c + d * d - 1
        = (q.exactSq - value n * value n) / (value n * value n) := by
      rw [ha, hb, hc, hd, exactSq]
      field_simp
    rw [hratio, abs_div, abs_of_pos hsquare, div_le_iff₀ hsquare]
    exact hclose
  obtain ⟨hlow, hhigh⟩ := abs_le.mp hsum
  norm_num at hlow hhigh
  obtain ⟨⟨ha₂, hb₂⟩, hc₂, hd₂⟩ := abs_le_two_of_squares (a := a) (b := b) (c := c) (d := d)
    (by linarith)
  obtain ⟨hw, hw'⟩ := hw' ha₂
  obtain ⟨hx, hx'⟩ := hx' hb₂
  obtain ⟨hy, hy'⟩ := hy' hc₂
  obtain ⟨hz, hz'⟩ := hz' hd₂
  refine ⟨⟨hw, hx, hy, hz⟩, ?_⟩
  show |value (q.w / n) * value (q.w / n) + value (q.x / n) * value (q.x / n)
    + value (q.y / n) * value (q.y / n) + value (q.z / n) * value (q.z / n) - 1| ≤ _
  obtain ⟨hw₁, hw₂⟩ := abs_le.mp hw'
  obtain ⟨hx₁, hx₂⟩ := abs_le.mp hx'
  obtain ⟨hy₁, hy₂⟩ := abs_le.mp hy'
  obtain ⟨hz₁, hz₂⟩ := abs_le.mp hz'
  norm_num at hw₁ hw₂ hx₁ hx₂ hy₁ hy₂ hz₁ hz₂
  rw [abs_le]
  constructor <;> norm_num <;> linarith

/-! ## Norms close to one -/

/-- The sum of the squares of small numbers is finite. -/
theorem isFinite_sumSq (hq : q.Finite) (h : q.exactSq ≤ 4) : q.sumSq.isFinite := by
  obtain ⟨⟨hw, hx⟩, hy, hz⟩ := abs_le_two_of_squares h
  have hsquare {x : Float} (hx : x.isFinite) (hsmall : |value x| ≤ 2) :
      (x * x).isFinite ∧ |value (x * x)| ≤ (4 : ℕ) := by
    refine small_of_rounds (mul_rounds hx hx) ?_ (by norm_num)
    calc |value x * value x| = |value x| * |value x| := abs_mul _ _
      _ ≤ 2 * 2 := by gcongr
      _ = (4 : ℕ) := by norm_num
  have hadd {x y : Float} {j k : ℕ} (hx : x.isFinite ∧ |value x| ≤ j)
      (hy : y.isFinite ∧ |value y| ≤ k) (hjk : j + k < 2 ^ 53) :
      (x + y).isFinite ∧ |value (x + y)| ≤ (j + k : ℕ) := by
    refine small_of_rounds (add_rounds hx.1 hy.1) ?_ hjk
    push_cast
    exact (abs_add_le _ _).trans (add_le_add hx.2 hy.2)
  exact (hadd (hadd (hadd (hsquare hq.w hw) (hsquare hq.x hx) (by norm_num)) (hsquare hq.y hy)
    (by norm_num)) (hsquare hq.z hz) (by norm_num)).1

/-- The computed sum of the squares of a quaternion of about norm one. -/
theorem sumSq_close (hq : q.Finite) (h : |q.exactSq - 1| ≤ 2 ^ (-44 : ℤ)) :
    q.sumSq.isFinite ∧ |value q.sumSq - 1| ≤ 2 ^ (-43 : ℤ) := by
  obtain ⟨-, hhigh⟩ := abs_le.mp h
  norm_num at hhigh
  have hsum := isFinite_sumSq hq (by linarith)
  refine ⟨hsum, ?_⟩
  have herror := (sumSq_error hsum).2
  have hleast := least_error_le
  calc |value q.sumSq - 1| ≤ |value q.sumSq - q.exactSq| + |q.exactSq - 1| := abs_sub_le _ _ _
    _ ≤ (2 ^ (-49 : ℤ) * q.exactSq + 22 * 2 ^ (-1075 : ℤ)) + 2 ^ (-44 : ℤ) := add_le_add herror h
    _ ≤ (2 ^ (-49 : ℤ) * 2 + 22 * 2 ^ (-60 : ℤ)) + 2 ^ (-44 : ℤ) := by
        gcongr
        linarith
    _ ≤ 2 ^ (-43 : ℤ) := by norm_num

/-- The computed norm of a quaternion of about norm one. -/
theorem sqrt_sumSq_close (hq : q.Finite) (h : |q.exactSq - 1| ≤ 2 ^ (-44 : ℤ)) :
    q.sumSq.sqrt.isFinite ∧ |value q.sumSq.sqrt - 1| ≤ 2 ^ (-42 : ℤ) := by
  obtain ⟨hsum, hclose⟩ := sumSq_close hq h
  have hnonneg : 0 ≤ value q.sumSq := by
    obtain ⟨hlow, -⟩ := abs_le.mp hclose
    norm_num at hlow
    linarith
  have hrounds := sqrt_rounds hsum hnonneg
  have hroot : |√(value q.sumSq) - 1| ≤ 2 ^ (-43 : ℤ) := (abs_sqrt_sub_one_le hnonneg).trans hclose
  have hsize : |√(value q.sumSq)| ≤ (2 : ℕ) := by
    obtain ⟨-, hhigh⟩ := abs_le.mp hroot
    norm_num at hhigh
    rw [abs_of_nonneg (Real.sqrt_nonneg _)]
    push_cast
    linarith
  obtain ⟨hfinite, -⟩ := small_of_rounds hrounds hsize (by norm_num)
  refine ⟨hfinite, ?_⟩
  calc |value q.sumSq.sqrt - 1|
      ≤ |value q.sumSq.sqrt - √(value q.sumSq)| + |√(value q.sumSq) - 1| := abs_sub_le _ _ _
    _ ≤ 2 ^ (-51 : ℤ) + 2 ^ (-43 : ℤ) :=
        add_le_add ((hrounds.nearest hfinite).error_le_of_abs_le hsize) hroot
    _ ≤ 2 ^ (-42 : ℤ) := by norm_num

theorem one_spec : (1 : Float).isFinite ∧ value 1 = 1 := by
  have hone := ofNat_spec (n := 1) (by norm_num)
  exact ⟨hone.1, hone.2.trans Nat.cast_one⟩

/-- The limit up to which a norm counts as one. -/
theorem limit_spec : (1e-12 : Float).isFinite ∧ 2 ^ (-40 : ℤ) ≤ value 1e-12 :=
  le_ofScientific (by norm_num) (by norm_num)

/-- **Norms.** The computed norm of a quaternion of about norm one counts as one. -/
theorem norm_counts_as_one (hq : q.Finite) (h : |q.exactSq - 1| ≤ 2 ^ (-44 : ℤ)) :
    ¬ 1e-12 < (q.sumSq.sqrt - 1).abs := by
  obtain ⟨hfinite, hclose⟩ := sqrt_sumSq_close hq h
  have hrounds := sub_rounds hfinite one_spec.1
  rw [one_spec.2] at hrounds
  obtain ⟨hdiff, -⟩ := small_of_rounds (k := 1) hrounds (hclose.trans (by norm_num)) (by norm_num)
  obtain ⟨habs, hvalue⟩ := abs_spec hdiff
  rw [lt_iff limit_spec.1 habs, hvalue, not_lt]
  have herror := (hrounds.nearest hdiff).error_le_of_abs_le (hclose.trans (by norm_num))
  calc |value (q.sumSq.sqrt - 1)|
      ≤ |value (q.sumSq.sqrt - 1) - (value q.sumSq.sqrt - 1)| + |value q.sumSq.sqrt - 1| := by
        rw [← sub_le_iff_le_add]
        exact abs_sub_abs_le_abs_sub _ _
    _ ≤ 2 ^ (-51 : ℤ) + 2 ^ (-42 : ℤ) := add_le_add herror hclose
    _ ≤ 2 ^ (-40 : ℤ) := by norm_num
    _ ≤ value 1e-12 := limit_spec.2

/-- The limit up to which a norm counts as one is small. -/
theorem limit_le : value 1e-12 ≤ 2 ^ (-39 : ℤ) := by
  have hrounds := ofScientific_rounds 1 true 12
  rw [if_pos rfl] at hrounds
  have hle : |((1 : ℕ) : ℝ) * 10 ^ (-((12 : ℕ) : ℤ))| ≤ 2 ^ (-39 : ℤ) := by norm_num
  exact (le_abs_self _).trans ((hrounds.nearest limit_spec.1).abs_le_of_abs_le
    (representable_two_zpow (by norm_num) (by norm_num)) hle)

/-- A finite number that is not negative, less one, is finite. -/
theorem isFinite_sub_one {x : Float} (hx : x.isFinite) (hnonneg : 0 ≤ value x) :
    (x - 1).isFinite := by
  have hrounds := sub_rounds hx one_spec.1
  rw [one_spec.2] at hrounds
  have hmax := (le_abs_self _).trans (representable_value x).abs_le
  have hone : (1 : ℝ) ≤ 2 ^ (971 : ℤ) := one_le_zpow₀ (by norm_num) (by norm_num)
  refine hrounds.finite_of_lt ?_
  generalize (2 : ℝ) ^ (971 : ℤ) = step at *
  norm_num at hmax
  rw [abs_lt]
  constructor <;> norm_num <;> linarith

/-- If the computed norm of a quaternion counts as one, the exact norm is very close to one. -/
theorem exactSq_of_norm_counts_as_one (h : q.sumSq.sqrt.isFinite)
    (hone : ¬ 1e-12 < (q.sumSq.sqrt - 1).abs) : |q.exactSq - 1| ≤ 2 ^ (-36 : ℤ) := by
  obtain ⟨hsum, hnonneg⟩ := isFinite_of_sqrt h
  have hroot : 0 ≤ value q.sumSq.sqrt :=
    ((sqrt_rounds hsum hnonneg).nearest h).le_of_le representable_zero (Real.sqrt_nonneg _)
  have hdiff := isFinite_sub_one h hroot
  have hrounds := sub_rounds h one_spec.1
  rw [one_spec.2] at hrounds
  obtain ⟨habs, hvalue⟩ := abs_spec hdiff
  rw [lt_iff limit_spec.1 habs, hvalue, not_lt] at hone
  have herror := (hrounds.nearest hdiff).error_le
  have hη := least_error_le
  have hnorm : |value q.sumSq.sqrt - 1| ≤ 2 ^ (-38 : ℤ) := by
    have hle := hone.trans limit_le
    have htriangle := abs_sub_abs_le_abs_sub (value q.sumSq.sqrt - 1) (value (q.sumSq.sqrt - 1))
    rw [abs_sub_comm] at herror
    generalize (2 : ℝ) ^ (-1075 : ℤ) = η at herror hη
    norm_num at hle hη herror ⊢
    linarith
  obtain ⟨hlow, hhigh⟩ := abs_le.mp hnorm
  have hlarge : 2 ^ (-1 : ℤ) ≤ value q.sumSq.sqrt := by
    norm_num at hlow ⊢
    linarith
  have hclose : |q.exactSq - value q.sumSq.sqrt * value q.sumSq.sqrt|
      ≤ 2 ^ (-45 : ℤ) * (value q.sumSq.sqrt * value q.sumSq.sqrt) := by
    refine (exactSq_error (by norm_num) h hlarge).2.trans ?_
    have hlost : (2 : ℝ) ^ (-1070 - 2 * -1 : ℤ) ≤ 2 ^ (-60 : ℤ) :=
      zpow_le_zpow_right₀ (by norm_num) (by norm_num)
    gcongr
    calc (2 : ℝ) ^ (-46 : ℤ) + 2 * 2 ^ (-1070 - 2 * -1 : ℤ)
        ≤ 2 ^ (-46 : ℤ) + 2 * 2 ^ (-60 : ℤ) := by gcongr
      _ ≤ 2 ^ (-45 : ℤ) := by norm_num
  generalize value q.sumSq.sqrt = n at *
  obtain ⟨hclose₁, hclose₂⟩ := abs_le.mp hclose
  norm_num at hlow hhigh hclose₁ hclose₂
  rw [abs_le]
  constructor <;> norm_num <;> nlinarith

end Quat

end RideHud
