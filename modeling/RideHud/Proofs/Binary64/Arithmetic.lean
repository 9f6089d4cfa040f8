import RideHud.Proofs.Binary64.Mantissa

/-!
# Arithmetic of binary64 numbers

The result of an operation is the exact result, rounded: the nearest representable number
(`Rounds.nearest`), of two the one with an even mantissa, or infinity if that is too large. Numbers
that are rounded from the same value are the same (`Rounds.unique`).
-/

namespace RideHud.Binary64

open Float.Model (UnpackedFloat Format totalExponent)
open Float.Model.UnpackedFloat

/-! ## Rounded numbers -/

/-- `x` is what `y` is rounded to. -/
def Rounds (x : Float) (y : ℝ) : Prop :=
  ∃ s a u, 0 ≤ a ∧ Grounded s a u ∧ y = signed s a ∧ x.toModel = Float.Model.pack u

namespace Rounds

variable {x x' : Float} {y : ℝ}

/-- A number that lies less than half a step beyond the largest is rounded to a finite one. -/
theorem finite_of_lt (h : Rounds x y) (hy : |y| < (2 ^ 53 - 1 / 2) * 2 ^ (971 : ℤ)) :
    x.isFinite := by
  obtain ⟨s, a, u, -, hground, rfl, hmodel⟩ := h
  rw [abs_signed] at hy
  rcases hground.stored with ⟨hunpack, hfinite, -⟩ | ⟨-, hlarge⟩
  · show x.toModel.unpack.isFinite = true
    rw [hmodel, hunpack]
    exact hfinite
  · exact absurd hy (not_lt.mpr hlarge)

/-- A number that is not too large is rounded to a finite one. -/
theorem finite (h : Rounds x y) (hy : |y| < 2 ^ (1023 : ℤ)) : x.isFinite := by
  refine h.finite_of_lt (hy.trans_le ?_)
  calc (2 : ℝ) ^ (1023 : ℤ) = 2 ^ 52 * 2 ^ (971 : ℤ) := by
        rw [show (1023 : ℤ) = 52 + 971 by norm_num, zpow_add₀ (by norm_num)]
        norm_num
    _ ≤ (2 ^ 53 - 1 / 2) * 2 ^ (971 : ℤ) := by
        gcongr
        norm_num

/-- A finite number is the nearest to what it was rounded from. -/
theorem nearest (h : Rounds x y) (hx : x.isFinite) : Nearest (value x) y := by
  obtain ⟨s, a, u, -, hground, rfl, hmodel⟩ := h
  replace hx : x.toModel.unpack.isFinite = true := hx
  unfold value
  rw [hmodel] at hx ⊢
  rcases hground.stored with ⟨hunpack, -, hnear⟩ | ⟨hunpack, -⟩
  · rw [hunpack]
    exact hnear
  · rw [hunpack] at hx
    cases hx

/-- A number that was rounded is a number. -/
theorem not_isNaN (h : Rounds x y) : x.isNaN = false := by
  obtain ⟨s, a, u, -, hground, rfl, hmodel⟩ := h
  show x.toModel.unpack.isNaN = false
  rw [hmodel]
  rcases hground.stored with ⟨hunpack, hfinite, -⟩ | ⟨hunpack, -⟩
  · rw [hunpack]
    cases u with
    | notANumber => cases hfinite
    | _ => rfl
  · rw [hunpack]
    rfl

/-- Numbers that were rounded from the same value, which is not zero, are the same. -/
theorem unique (h : Rounds x y) (h' : Rounds x' y) (hy : y ≠ 0) : x = x' := by
  obtain ⟨s, a, u, ha, hground, rfl, hmodel⟩ := h
  obtain ⟨s', a', u', ha', hground', hvalue, hmodel'⟩ := h'
  have hsame : s = s' ∧ a = a' := by
    cases s <;> cases s' <;> simp only [signed_negative, signed_positive] at hvalue hy
    · exact ⟨rfl, neg_injective hvalue⟩
    · exact absurd (by linarith) hy
    · exact absurd (by linarith) hy
    · exact ⟨rfl, hvalue⟩
  obtain ⟨rfl, rfl⟩ := hsame
  obtain rfl := hground.unique hground'
  obtain ⟨model⟩ := x
  obtain ⟨model'⟩ := x'
  exact congrArg Float.ofModel (hmodel.trans hmodel'.symm)

/-- A decimal that is much nearer to a number than its neighbours is rounded to it. -/
theorem eq_of_close {z : Float} (h : Rounds z y)
    (hclose : |value x - y| < 2 ^ (-54 : ℤ) * |value x|) : z = x := by
  have hlarge := (representable_value x).abs_le
  have hne : value x ≠ 0 := fun hzero => by
    rw [hzero, abs_zero, mul_zero] at hclose
    exact absurd hclose (not_lt.mpr (abs_nonneg _))
  have hfinite : z.isFinite := by
    refine h.finite_of_lt ?_
    have htriangle : |y| ≤ |value x| + |value x - y| := by
      have hsum := abs_sub_abs_le_abs_sub y (value x)
      rw [abs_sub_comm y] at hsum
      linarith
    have hpos : (0 : ℝ) < 2 ^ (971 : ℤ) := by positivity
    generalize (2 : ℝ) ^ (971 : ℤ) = step at *
    have hhalf : (2 : ℝ) ^ (-54 : ℤ) * |value x| < 1 / 2 * step := by
      calc (2 : ℝ) ^ (-54 : ℤ) * |value x| ≤ 2 ^ (-54 : ℤ) * ((2 ^ 53 - 1) * step) := by gcongr
        _ < 1 / 2 * step := by
            rw [← mul_assoc]
            gcongr
            norm_num
    calc |y| ≤ |value x| + |value x - y| := htriangle
      _ < (2 ^ 53 - 1) * step + 1 / 2 * step := add_lt_add_of_le_of_lt hlarge (hclose.trans hhalf)
      _ = (2 ^ 53 - 1 / 2) * step := by ring
  have hsame := (h.nearest hfinite).eq_of_close (representable_value x) hclose
  exact (eq_of_value_eq hsame.symm hne).symm

end Rounds

/-! ## Exact steps -/

theorem grounded_zero (s : Sign) : Grounded s 0 (.zero s) := by
  refine ⟨-1074, 0, 0, ⟨le_rfl, by norm_num, .inr rfl⟩, ⟨by norm_num, fun _ => Even.zero⟩, ?_, rfl⟩
  rw [zero_mul]

/-- What is stored is rounded to itself. -/
theorem Canonical.grounded {m : ℕ} {e : ℤ} (h : Canonical m e) (s : Sign) :
    Grounded s (m * 2 ^ e) (.finite s m e h.pos) := by
  refine ⟨e, m, m, ⟨h.le_exponent, ?_, ?_⟩, ⟨?_, ?_⟩, rfl, ?_⟩
  · rw [Nat.abs_cast]
    exact_mod_cast h.lt
  · rw [Nat.abs_cast]
    exact h.full.imp_left fun hfull => by exact_mod_cast hfull
  · norm_num
  · intro htie
    norm_num at htie
  · unfold onGrid
    rw [dif_neg h.pos.ne', if_neg h.lt.ne]

theorem decreaseExponent_eq (m : ℕ) (e t : ℤ) :
    decreaseExponent m e t = (m * 2 ^ (e - t).toNat, e - (e - t).toNat) := by
  unfold decreaseExponent
  simp only [Nat.shiftLeft_eq]

/-- A mantissa with a smaller exponent tells the same number. -/
theorem decreaseExponent_value (m : ℕ) (e t : ℤ) :
    ((decreaseExponent m e t).1 : ℝ) * 2 ^ (decreaseExponent m e t).2 = m * 2 ^ e := by
  have hsplit : e = ((e - t).toNat : ℤ) + (e - (e - t).toNat) := by omega
  rw [decreaseExponent_eq]
  push_cast
  rw [mul_assoc, ← zpow_natCast (2 : ℝ) (e - t).toNat, ← zpow_add₀ (by norm_num), ← hsplit]

theorem round_grounded (s : Sign) {m : ℕ} (hm : 0 < m) (e : ℤ) :
    Grounded s (m * 2 ^ e) (UnpackedFloat.round .binary64 s m e) := by
  obtain ⟨t, ht⟩ : ∃ t, t = Format.binary64.targetExponent (totalExponent m e) := ⟨_, rfl⟩
  show Grounded s _ (roundWithAccuracy .binary64 s
    (decreaseExponent m e (Format.binary64.targetExponent (totalExponent m e))).1
    (decreaseExponent m e (Format.binary64.targetExponent (totalExponent m e))).2 .exact)
  rw [← ht, ← decreaseExponent_value m e t]
  refine roundWithAccuracy_eq s (accurate_exact _) ?_
  -- There are enough bits in the mantissa, or they are shifted in.
  have hlog := Nat.log2_self_le hm.ne'
  rw [targetExponent_eq, totalExponent] at ht
  rw [decreaseExponent_eq]
  rcases le_or_gt t (-1074) with hmin | hmin
  · right
    omega
  · left
    calc 2 ^ 52 ≤ 2 ^ (m.log2 + (e - t).toNat) := Nat.pow_le_pow_right (by norm_num) (by omega)
      _ = 2 ^ m.log2 * 2 ^ (e - t).toNat := Nat.pow_add ..
      _ ≤ m * 2 ^ (e - t).toNat := Nat.mul_le_mul_right _ hlog

/-- A whole number times a power of two is rounded with its sign. -/
theorem normalize_grounded (n e : ℤ) :
    ∃ s a, 0 ≤ a ∧ Grounded s a (UnpackedFloat.normalize .binary64 n e .positive) ∧
      n * 2 ^ e = signed s a := by
  unfold UnpackedFloat.normalize
  rcases lt_trichotomy n 0 with hneg | rfl | hpos
  · have hcast : (((-n).toNat : ℕ) : ℝ) = -n := by
      have hint : (((-n).toNat : ℕ) : ℤ) = -n := Int.toNat_of_nonneg (by omega)
      exact_mod_cast hint
    rw [Int.compare_eq_lt.mpr hneg]
    refine ⟨.negative, _, by positivity, round_grounded .negative (by omega) e, ?_⟩
    rw [signed_negative, hcast]
    ring
  · exact ⟨.positive, 0, le_rfl, grounded_zero .positive, by simp⟩
  · have hcast : ((n.toNat : ℕ) : ℝ) = n := by
      have hint : ((n.toNat : ℕ) : ℤ) = n := Int.toNat_of_nonneg hpos.le
      exact_mod_cast hint
    rw [Int.compare_eq_gt.mpr hpos]
    refine ⟨.positive, _, by positivity, round_grounded .positive (by omega) e, ?_⟩
    rw [signed_positive, hcast]

/-! ## Signs -/

theorem signed_mul (s s' : Sign) (a b : ℝ) :
    signed (s * s') (a * b) = signed s a * signed s' b := by
  cases s <;> cases s' <;> simp only [signed_negative, signed_positive] <;>
    first
    | exact (neg_mul_neg a b).symm
    | exact (neg_mul a b).symm
    | exact (mul_neg a b).symm
    | rfl

theorem signed_div (s s' : Sign) (a b : ℝ) :
    signed (s / s') (a / b) = signed s a / signed s' b := by
  cases s <;> cases s' <;> simp only [signed_negative, signed_positive] <;>
    first
    | exact (neg_div_neg_eq a b).symm
    | exact (neg_div b a).symm
    | exact (div_neg a).symm
    | rfl

theorem signed_neg (s : Sign) (a : ℝ) : signed (-s) a = -signed s a := by
  cases s with
  | negative => exact (neg_neg a).symm
  | positive => rfl

theorem apply_cast (s : Sign) (m : ℕ) : ((s.apply m : ℤ) : ℝ) = signed s m := by
  cases s <;> simp [Sign.apply]

theorem signed_mul_pow (s : Sign) (a b : ℝ) : signed s (a * b) = signed s a * b := by
  cases s with
  | negative => exact (neg_mul a b).symm
  | positive => rfl

/-! ## Operations on what is stored -/

/-- The number that is read from `x` is a mantissa with an exponent, or zero. -/
theorem stored_cases {x : Float} (hx : x.isFinite) :
    ∃ s a, 0 ≤ a ∧ value x = signed s a ∧ Grounded s a x.toModel.unpack := by
  rcases finite_cases hx with ⟨s, hu, hv⟩ | ⟨s, m, e, hc, hu, hv⟩
  · refine ⟨s, 0, le_rfl, ?_, ?_⟩
    · rw [hv]
      cases s <;> simp
    · rw [hu]
      exact grounded_zero s
  · refine ⟨s, _, hc.value_pos.le, hv, ?_⟩
    rw [hu]
    exact hc.grounded s

/-- A finite number is rounded from its value. -/
theorem rounds_value {x : Float} (hx : x.isFinite) : Rounds x (value x) := by
  obtain ⟨s, a, ha, hv, hground⟩ := stored_cases hx
  exact ⟨s, a, _, ha, hground, hv, (unpack_spec x.toModel).1.symm⟩

section

variable {x y : Float}

theorem mul_rounds (hx : x.isFinite) (hy : y.isFinite) : Rounds (x * y) (value x * value y) := by
  have hmodel : (x * y).toModel
      = Float.Model.pack (UnpackedFloat.mul .binary64 x.toModel.unpack y.toModel.unpack) := rfl
  rcases finite_cases hx with ⟨s, hu, hv⟩ | ⟨s, m, e, hc, hu, hv⟩ <;>
    rcases finite_cases hy with ⟨s', hu', hv'⟩ | ⟨s', m', e', hc', hu', hv'⟩ <;>
    rw [hu, hu'] at hmodel <;>
    rw [hv, hv']
  case inr.inr =>
    have hpos := hc.value_pos
    have hpos' := hc'.value_pos
    rw [← signed_mul]
    refine ⟨s * s', _, _, by positivity, ?_, rfl, hmodel⟩
    have hvalue : (m : ℝ) * 2 ^ e * (m' * 2 ^ e') = ((m * m' : ℕ) : ℝ) * 2 ^ (e + e') := by
      rw [zpow_add₀ (by norm_num)]
      push_cast
      ring
    rw [hvalue]
    refine roundWithAccuracy_eq (s * s') (accurate_exact _) ?_
    -- One mantissa is full, or both exponents are the least one.
    have hm := hc.pos
    have hm' := hc'.pos
    rcases hc.full with hfull | hmin
    · exact .inl (hfull.trans (Nat.le_mul_of_pos_right m hm'))
    · rcases hc'.full with hfull' | hmin'
      · exact .inl (hfull'.trans (Nat.le_mul_of_pos_left m' hm))
      · exact .inr (by omega)
  all_goals
    refine ⟨s * s', 0, _, le_rfl, grounded_zero (s * s'), ?_, hmodel⟩
    cases s * s' <;> simp

theorem add_rounds (hx : x.isFinite) (hy : y.isFinite) : Rounds (x + y) (value x + value y) := by
  have hmodel : (x + y).toModel
      = Float.Model.pack (UnpackedFloat.add .binary64 x.toModel.unpack y.toModel.unpack) := rfl
  rcases finite_cases hx with ⟨s, hu, hv⟩ | ⟨s, m, e, hc, hu, hv⟩ <;>
    rcases finite_cases hy with ⟨s', hu', hv'⟩ | ⟨s', m', e', hc', hu', hv'⟩ <;>
    rw [hu, hu'] at hmodel <;>
    rw [hv, hv']
  · obtain ⟨s'', hzero⟩ : ∃ s'', UnpackedFloat.add .binary64 (.zero s) (.zero s') = .zero s'' := by
      cases s <;> cases s' <;> exact ⟨_, rfl⟩
    rw [hzero] at hmodel
    refine ⟨s'', 0, _, le_rfl, grounded_zero s'', ?_, hmodel⟩
    cases s'' <;> simp
  · rw [zero_add]
    exact ⟨s', _, _, hc'.value_pos.le, hc'.grounded s', rfl, hmodel⟩
  · rw [add_zero]
    exact ⟨s, _, _, hc.value_pos.le, hc.grounded s, rfl, hmodel⟩
  · obtain ⟨t, ht⟩ : ∃ t, t = min e e' := ⟨_, rfl⟩
    have hscale {m : ℕ} {e : ℤ} (s : Sign) (hte : t ≤ e) :
        ((s.apply (decreaseExponent m e t).1 : ℤ) : ℝ) * 2 ^ t = signed s (m * 2 ^ e) := by
      have hexponent : (decreaseExponent m e t).2 = t := by
        rw [decreaseExponent_eq]
        show e - ((e - t).toNat : ℤ) = t
        omega
      rw [apply_cast, ← signed_mul_pow, ← decreaseExponent_value m e t, hexponent]
    obtain ⟨s'', a, ha, hground, hvalue⟩ := normalize_grounded
      (s.apply (decreaseExponent m e t).1 + s'.apply (decreaseExponent m' e' t).1) t
    refine ⟨s'', a, _, ha, hground, ?_, ?_⟩
    · rw [← hvalue, Int.cast_add, add_mul, hscale s (by omega), hscale s' (by omega)]
    · rw [hmodel, ht]
      rfl

/-- Only the sign changes. -/
theorem neg_unpack (hx : x.isFinite) : (-x).toModel.unpack = x.toModel.unpack.neg := by
  show (Float.Model.pack x.toModel.unpack.neg).unpack = _
  rcases finite_cases hx with ⟨s, hu, -⟩ | ⟨s, m, e, hc, hu, -⟩ <;> rw [hu]
  · exact unpack_pack_zero (-s)
  · exact hc.unpack_pack (-s)

/-- The value of a number with the other sign. -/
theorem neg_spec (hx : x.isFinite) : (-x).isFinite ∧ value (-x) = -value x := by
  show (-x).toModel.unpack.isFinite = true ∧ unpackedValue (-x).toModel.unpack = _
  rw [neg_unpack hx]
  rcases finite_cases hx with ⟨s, hu, hv⟩ | ⟨s, m, e, hc, hu, hv⟩ <;> rw [hu, hv]
  · exact ⟨rfl, neg_zero.symm⟩
  · exact ⟨rfl, signed_neg s _⟩

theorem isInf_neg (x : Float) : (-x).isInf = x.isInf := by
  show (Float.Model.pack x.toModel.unpack.neg).unpack.isInf = x.toModel.unpack.isInf
  cases hu : x.toModel.unpack with
  | notANumber => rfl
  | infinity s =>
      rw [UnpackedFloat.neg, unpack_pack_infinity]
      rfl
  | zero s =>
      rw [UnpackedFloat.neg, unpack_pack_zero]
      rfl
  | finite s m e hm =>
      rw [UnpackedFloat.neg, ((unpack_spec x.toModel).2 s m e hm hu).unpack_pack]
      rfl

theorem abs_unpack (hx : x.isFinite) : x.abs.toModel.unpack = x.toModel.unpack.abs := by
  show (Float.Model.pack x.toModel.unpack.abs).unpack = _
  rcases finite_cases hx with ⟨s, hu, -⟩ | ⟨s, m, e, hc, hu, -⟩ <;> rw [hu]
  · exact unpack_pack_zero .positive
  · exact hc.unpack_pack .positive

/-- The value of a number without its sign. -/
theorem abs_spec (hx : x.isFinite) : x.abs.isFinite ∧ value x.abs = |value x| := by
  show x.abs.toModel.unpack.isFinite = true ∧ unpackedValue x.abs.toModel.unpack = _
  rw [abs_unpack hx]
  rcases finite_cases hx with ⟨s, hu, hv⟩ | ⟨s, m, e, hc, hu, hv⟩ <;> rw [hu, hv]
  · exact ⟨rfl, abs_zero.symm⟩
  · rw [abs_signed, abs_of_pos hc.value_pos]
    exact ⟨rfl, rfl⟩

/-- A difference is a sum with the other sign. -/
theorem unpacked_sub (u u' : UnpackedFloat) :
    UnpackedFloat.sub .binary64 u u' = UnpackedFloat.add .binary64 u u'.neg := by
  have happly (s : Sign) (n : ℤ) : (-s).apply n = -s.apply n := by
    cases s with
    | negative => exact (neg_neg n).symm
    | positive => rfl
  rcases u with s | _ | s | ⟨s, m, e, hm⟩ <;> rcases u' with s' | _ | s' | ⟨s', m', e', hm'⟩
  case finite.finite =>
    show UnpackedFloat.normalize .binary64 (s.apply (decreaseExponent m e (min e e')).1
        - s'.apply (decreaseExponent m' e' (min e e')).1) (min e e') .positive
      = UnpackedFloat.normalize .binary64 (s.apply (decreaseExponent m e (min e e')).1
        + (-s').apply (decreaseExponent m' e' (min e e')).1) (min e e') .positive
    rw [happly, sub_eq_add_neg]
  all_goals rfl

theorem sub_rounds (hx : x.isFinite) (hy : y.isFinite) : Rounds (x - y) (value x - value y) := by
  obtain ⟨hneg, hvalue⟩ := neg_spec hy
  obtain ⟨s, a, u, ha, hground, hsum, hmodel⟩ := add_rounds hx hneg
  rw [hvalue, ← sub_eq_add_neg] at hsum
  refine ⟨s, a, u, ha, hground, hsum, ?_⟩
  rw [← hmodel]
  show Float.Model.pack (UnpackedFloat.sub .binary64 x.toModel.unpack y.toModel.unpack)
    = Float.Model.pack (UnpackedFloat.add .binary64 x.toModel.unpack (-y).toModel.unpack)
  rw [neg_unpack hy, unpacked_sub]

/-- The accuracy of a quotient of mantissas. -/
theorem accurate_div (m : ℕ) {d : ℕ} (hd : 0 < d) :
    Accurate (m / d) (accuracyOfFraction (m % d) d) ((m : ℝ) / d) := by
  have hreal : (0 : ℝ) < d := by exact_mod_cast hd
  have hsplit : (m : ℝ) / d = (m / d : ℕ) + (m % d : ℕ) / d := by
    have hcast : (m : ℝ) = d * (m / d : ℕ) + (m % d : ℕ) := by
      exact_mod_cast (Nat.div_add_mod m d).symm
    nth_rewrite 1 [hcast]
    rw [add_div, mul_div_cancel_left₀ _ hreal.ne']
  rw [hsplit, accuracyOfFraction]
  have hlt : ((m % d : ℕ) : ℝ) < d := by exact_mod_cast Nat.mod_lt m hd
  generalize m % d = r at *
  split
  · next hzero =>
      rw [hzero]
      show _ = _
      simp
  · next hne =>
      have hpos : (0 : ℝ) < r := by exact_mod_cast Nat.pos_of_ne_zero hne
      have hone : (r : ℝ) / d < 1 := (div_lt_one hreal).mpr hlt
      rcases lt_trichotomy (2 * r) d with hless | heq | hmore
      · rw [Nat.compare_eq_lt.mpr hless]
        have hhalf : (r : ℝ) / d < 1 / 2 := by
          rw [div_lt_div_iff₀ hreal (by norm_num)]
          have hcast : (2 : ℝ) * r < d := by exact_mod_cast hless
          linarith
        have hgt : 0 < (r : ℝ) / d := by positivity
        exact ⟨by linarith, by linarith⟩
      · rw [Nat.compare_eq_eq.mpr heq]
        have hhalf : (r : ℝ) / d = 1 / 2 := by
          rw [div_eq_div_iff hreal.ne' (by norm_num)]
          have hcast : (2 : ℝ) * r = d := by exact_mod_cast heq
          linarith
        show _ = _
        rw [hhalf]
      · rw [Nat.compare_eq_gt.mpr hmore]
        have hhalf : 1 / 2 < (r : ℝ) / d := by
          rw [div_lt_div_iff₀ (by norm_num) hreal]
          have hcast : (d : ℝ) < 2 * r := by exact_mod_cast hmore
          linarith
        exact ⟨by linarith, by linarith⟩

/-- A quotient of mantissas with exponents is rounded. -/
theorem div_grounded (s : Sign) {m d : ℕ} (hm : 0 < m) (hd : 0 < d) (e e' : ℤ) :
    Grounded s (m * 2 ^ e / (d * 2 ^ e')) (roundWithAccuracy .binary64 s
      (divCore .binary64 m e d e').1 (divCore .binary64 m e d e').2.1
      (divCore .binary64 m e d e').2.2) := by
  obtain ⟨t, ht⟩ : ∃ t, t = min (e - e') (Format.binary64.targetExponent
    (totalExponent m e - totalExponent d e')) := ⟨_, rfl⟩
  have hcore : divCore .binary64 m e d e' = (m * 2 ^ (e - e' - t).toNat / d, t,
      accuracyOfFraction (m * 2 ^ (e - e' - t).toNat % d) d) := by
    unfold divCore
    simp only [Nat.shiftLeft_eq, ← ht]
  have hvalue : (m : ℝ) * 2 ^ e / (d * 2 ^ e')
      = ((m * 2 ^ (e - e' - t).toNat : ℕ) : ℝ) / d * 2 ^ t := by
    have hd' : (d : ℝ) ≠ 0 := by exact_mod_cast hd.ne'
    have hsplit : e = ((e - e' - t).toNat : ℤ) + t + e' := by omega
    push_cast
    rw [div_mul_eq_mul_div, div_eq_div_iff (by positivity) hd']
    nth_rewrite 1 [hsplit]
    rw [zpow_add₀ (by norm_num), zpow_add₀ (by norm_num), zpow_natCast]
    ring
  rw [hcore, hvalue]
  refine roundWithAccuracy_eq s (accurate_div _ hd) ?_
  -- The quotient has enough bits, because the first mantissa was shifted that far.
  rw [targetExponent_eq, totalExponent, totalExponent] at ht
  rcases le_or_gt t (-1074) with hmin | hmin
  · exact .inr hmin
  · left
    have hlog := Nat.log2_self_le hm.ne'
    have hlog' : d < 2 ^ (d.log2 + 1) := Nat.lt_log2_self
    rw [Nat.le_div_iff_mul_le hd]
    calc 2 ^ 52 * d ≤ 2 ^ 52 * 2 ^ (d.log2 + 1) := Nat.mul_le_mul_left _ hlog'.le
      _ = 2 ^ (52 + (d.log2 + 1)) := (Nat.pow_add ..).symm
      _ ≤ 2 ^ (m.log2 + (e - e' - t).toNat) := Nat.pow_le_pow_right (by norm_num) (by omega)
      _ = 2 ^ m.log2 * 2 ^ (e - e' - t).toNat := Nat.pow_add ..
      _ ≤ m * 2 ^ (e - e' - t).toNat := Nat.mul_le_mul_right _ hlog

theorem div_rounds (hx : x.isFinite) (hy : y.isFinite) (hne : value y ≠ 0) :
    Rounds (x / y) (value x / value y) := by
  have hmodel : (x / y).toModel
      = Float.Model.pack (UnpackedFloat.div .binary64 x.toModel.unpack y.toModel.unpack) := rfl
  rcases finite_cases hy with ⟨s', hu', hv'⟩ | ⟨s', m', e', hc', hu', hv'⟩
  · exact absurd hv' hne
  rcases finite_cases hx with ⟨s, hu, hv⟩ | ⟨s, m, e, hc, hu, hv⟩ <;>
    rw [hu, hu'] at hmodel <;>
    rw [hv, hv']
  · refine ⟨s / s', 0, _, le_rfl, grounded_zero (s / s'), ?_, hmodel⟩
    rw [zero_div]
    cases s / s' <;> simp
  · have hpos := hc.value_pos
    have hpos' := hc'.value_pos
    rw [← signed_div]
    exact ⟨s / s', _, _, by positivity, div_grounded (s / s') hc.pos hc'.pos e e', rfl, hmodel⟩

/-- The accuracy of the root of a mantissa. -/
theorem accurate_sqrt (m : ℕ) :
    Accurate (Nat.sqrt m) (if m - Nat.sqrt m * Nat.sqrt m = 0 then .exact
      else .inexact (if m - Nat.sqrt m * Nat.sqrt m ≤ Nat.sqrt m then .lt else .gt)) (√m) := by
  have hle := Nat.sqrt_le m
  have hlt := Nat.lt_succ_sqrt m
  have hle' : (Nat.sqrt m : ℝ) ≤ √m := Real.nat_sqrt_le_real_sqrt
  generalize Nat.sqrt m = r at *
  have hr : (0 : ℝ) ≤ r := by positivity
  split
  · next hzero =>
      have hsquare : m = r * r := by omega
      show _ = _
      rw [hsquare, Nat.cast_mul, Real.sqrt_mul_self hr]
  · next hne =>
      have hpos : (r : ℝ) < √m := by
        rw [Real.lt_sqrt hr]
        have hnat : r ^ 2 < m := by
          rw [sq]
          omega
        exact_mod_cast hnat
      split
      · next hless =>
          have hhalf : √m < r + 1 / 2 := by
            rw [Real.sqrt_lt' (by positivity)]
            have hcast : (m : ℝ) ≤ r * r + r := by
              have hnat : m ≤ r * r + r := by omega
              exact_mod_cast hnat
            nlinarith
          exact ⟨hpos, hhalf⟩
      · next hmore =>
          have hhalf : r + 1 / 2 < √m := by
            rw [Real.lt_sqrt (by positivity)]
            have hcast : (r : ℝ) * r + r + 1 ≤ m := by
              have hnat : r * r + r + 1 ≤ m := by omega
              exact_mod_cast hnat
            nlinarith
          have hone : √m < r + 1 := by
            rw [Real.sqrt_lt' (by positivity)]
            have hcast : (m : ℝ) < (r + 1) * (r + 1) := by exact_mod_cast hlt
            nlinarith
          exact ⟨hhalf, hone⟩

/-- The root of a mantissa with an exponent is rounded. -/
theorem sqrt_grounded {m : ℕ} (hm : 0 < m) (e : ℤ) :
    Grounded .positive (√(m * 2 ^ e)) (roundWithAccuracy .binary64 .positive
      (sqrtCore .binary64 m e).1 (sqrtCore .binary64 m e).2.1 (sqrtCore .binary64 m e).2.2) := by
  obtain ⟨t, ht⟩ : ∃ t, t = min (e.ediv 2) (Format.binary64.targetExponent
    ((totalExponent m e + 1).ediv 2)) := ⟨_, rfl⟩
  obtain ⟨n, hn⟩ : ∃ n, n = m * 2 ^ (e - 2 * t).toNat := ⟨_, rfl⟩
  have hcore : sqrtCore .binary64 m e = (Nat.sqrt n, t, if n - Nat.sqrt n * Nat.sqrt n = 0
      then .exact
      else .inexact (if n - Nat.sqrt n * Nat.sqrt n ≤ Nat.sqrt n then .lt else .gt)) := by
    unfold sqrtCore
    simp only [Nat.shiftLeft_eq, ← ht, ← hn]
  have hhalf : e.ediv 2 = e / 2 := rfl
  have hhalf' : (totalExponent m e + 1).ediv 2 = (totalExponent m e + 1) / 2 := rfl
  rw [hhalf, hhalf', targetExponent_eq, totalExponent] at ht
  have hvalue : √(m * 2 ^ e) = √n * 2 ^ t := by
    have hsplit : e = ((e - 2 * t).toNat : ℤ) + (t + t) := by omega
    have hpow : (m : ℝ) * 2 ^ e = n * (2 ^ t * 2 ^ t) := by
      nth_rewrite 1 [hsplit]
      rw [zpow_add₀ (by norm_num), zpow_add₀ (by norm_num), zpow_natCast, hn]
      push_cast
      ring
    rw [hpow, Real.sqrt_mul (by positivity), Real.sqrt_mul_self (by positivity)]
  rw [hcore, hvalue]
  refine roundWithAccuracy_eq .positive (accurate_sqrt n) ?_
  rcases le_or_gt t (-1074) with hmin | hmin
  · exact .inr hmin
  · left
    have hlog := Nat.log2_self_le hm.ne'
    rw [Nat.le_sqrt, hn]
    calc 2 ^ 52 * 2 ^ 52 = 2 ^ 104 := by norm_num
      _ ≤ 2 ^ (m.log2 + (e - 2 * t).toNat) := Nat.pow_le_pow_right (by norm_num) (by omega)
      _ = 2 ^ m.log2 * 2 ^ (e - 2 * t).toNat := Nat.pow_add ..
      _ ≤ m * 2 ^ (e - 2 * t).toNat := Nat.mul_le_mul_right _ hlog

theorem sqrt_rounds (hx : x.isFinite) (hle : 0 ≤ value x) : Rounds x.sqrt (√(value x)) := by
  have hmodel : x.sqrt.toModel
      = Float.Model.pack (UnpackedFloat.sqrt .binary64 x.toModel.unpack) := rfl
  rcases finite_cases hx with ⟨s, hu, hv⟩ | ⟨s, m, e, hc, hu, hv⟩ <;>
    rw [hu] at hmodel <;>
    rw [hv] at hle ⊢
  · refine ⟨s, 0, _, le_rfl, grounded_zero s, ?_, hmodel⟩
    rw [Real.sqrt_zero]
    cases s <;> simp
  · have hpos := hc.value_pos
    cases s with
    | negative =>
        rw [signed_negative] at hle
        linarith
    | positive =>
        exact ⟨.positive, _, _, Real.sqrt_nonneg _, sqrt_grounded hc.pos e, rfl, hmodel⟩

end

end RideHud.Binary64
