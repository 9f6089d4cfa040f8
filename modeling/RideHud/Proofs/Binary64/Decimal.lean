import RideHud.Proofs.Binary64.Arithmetic

/-!
# Decimal numbers in binary64

A decimal number is rounded from its exact value, however its digits and its exponent are written.
-/

namespace RideHud.Binary64

open Float.Model (UnpackedFloat Format totalExponent)
open Float.Model.UnpackedFloat

/-! ## Numbers beyond the exponents -/

theorem exists_roundsTo {x : ℝ} (hx : 0 ≤ x) : ∃ r, RoundsTo x r := by
  have hle := Nat.floor_le hx
  have hlt := Nat.lt_floor_add_one x
  suffices htells : ∃ em, Tells em x from ⟨_, htells.choose_spec.roundsTo⟩
  rcases lt_trichotomy x (⌊x⌋₊ + 1 / 2) with hless | heq | hmore
  · rcases eq_or_lt_of_le hle with hexact | hpos
    · exact ⟨⟨⌊x⌋₊, false, false⟩, hexact.symm⟩
    · exact ⟨⟨⌊x⌋₊, false, true⟩, hpos, hless⟩
  · exact ⟨⟨⌊x⌋₊, true, false⟩, heq⟩
  · exact ⟨⟨⌊x⌋₊, true, true⟩, hmore, hlt⟩

/-- A number that is too large is rounded to infinity. -/
theorem rounds_infinity {x : Float} {y : ℝ} (hy : 2 ^ (1024 : ℤ) ≤ y)
    (hmodel : x.toModel = Float.Model.pack (.infinity .positive)) : Rounds x y := by
  have hnonneg : 0 ≤ y := le_trans (by positivity) hy
  obtain ⟨t, a, hgrid, rfl⟩ := exists_onGrid y
  have ha : 0 ≤ a := nonneg_of_mul_nonneg_left hnonneg (by positivity)
  have ht : 971 < t := by
    have hpow : (2 : ℝ) ^ (1024 : ℤ) < 2 ^ (53 + t) := by
      calc (2 : ℝ) ^ (1024 : ℤ) ≤ a * 2 ^ t := hy
        _ < 2 ^ 53 * 2 ^ t := by
            gcongr
            exact (abs_lt.mp hgrid.abs_lt).2
        _ = 2 ^ (53 + t) := by
            rw [zpow_add₀ (by norm_num)]
            norm_num
    have hexponent := (zpow_lt_zpow_iff_right₀ (by norm_num : (1 : ℝ) < 2)).mp hpow
    omega
  obtain ⟨r, hround⟩ := exists_roundsTo ha
  have hr := hround.full (hgrid.full.resolve_right (by omega))
  refine ⟨.positive, _, _, hnonneg, ⟨t, a, r, hgrid, hround, rfl, rfl⟩, rfl, ?_⟩
  have hlarge {m : ℕ} {e : ℤ} (hm : 0 < m) (he : 971 < e) :
      Float.Model.pack (.infinity .positive) = Float.Model.pack (.finite .positive m e hm) := by
    unfold Float.Model.pack
    congr 2
    exact (pack_large .positive hm he).symm
  rw [hmodel, onGrid, dif_neg (by omega)]
  split
  · exact hlarge _ (by omega)
  · exact hlarge _ ht

/-- A number that is too small is rounded to zero. -/
theorem rounds_zero {x : Float} {y : ℝ} (hnonneg : 0 ≤ y) (hy : y < 2 ^ (-1075 : ℤ))
    (hmodel : x.toModel = Float.Model.pack (.zero .positive)) : Rounds x y := by
  have hpow : (0 : ℝ) < 2 ^ (-1074 : ℤ) := by positivity
  have hsmall : y / 2 ^ (-1074 : ℤ) < 1 / 2 := by
    rw [div_lt_iff₀ hpow]
    calc y < 2 ^ (-1075 : ℤ) := hy
      _ = 1 / 2 * 2 ^ (-1074 : ℤ) := by
          rw [one_div, ← zpow_neg_one, ← zpow_add₀ (by norm_num)]
          norm_num
  have hpos : 0 ≤ y / 2 ^ (-1074 : ℤ) := by positivity
  refine ⟨.positive, y, .zero .positive, hnonneg, ?_, rfl, hmodel⟩
  refine ⟨-1074, y / 2 ^ (-1074 : ℤ), 0, ⟨le_rfl, ?_, .inr rfl⟩, ⟨?_, fun _ => Even.zero⟩, ?_, rfl⟩
  · rw [abs_of_nonneg hpos]
    linarith
  · rw [Nat.cast_zero, Int.cast_zero, zero_sub, abs_neg, abs_of_nonneg hpos]
    exact hsmall.le
  · rw [div_mul_cancel₀ _ hpow.ne']

/-! ## Whole numbers -/

/-- A representable number is rounded to itself. -/
theorem Rounds.value_eq {x : Float} {y : ℝ} (h : Rounds x y) (hx : x.isFinite)
    (hy : Representable y) : value x = y := by
  have hle := (h.nearest hx).le y hy
  rw [sub_self, abs_zero] at hle
  exact sub_eq_zero.mp (abs_nonpos_iff.mp hle)

theorem representable_natCast {n : ℕ} (hn : n < 2 ^ 53) : Representable n :=
  ⟨n, 0, by rw [Nat.abs_cast]; exact_mod_cast hn, by norm_num, by norm_num, by simp⟩

theorem ofInt_model_rounds {x : Float} (n : ℤ)
    (hmodel : x.toModel = Float.Model.pack (UnpackedFloat.normalize .binary64 n 0 .positive)) :
    Rounds x n := by
  obtain ⟨s, a, ha, hground, hvalue⟩ := normalize_grounded n 0
  exact ⟨s, a, _, ha, hground, by simpa using hvalue, hmodel⟩

/-- A whole number that fits a mantissa is converted exactly. -/
theorem toFloat_spec {n : ℕ} (hn : n < 2 ^ 53) :
    n.toUInt64.toFloat.isFinite ∧ value n.toUInt64.toFloat = n := by
  have hrounds : Rounds n.toUInt64.toFloat ((n : ℤ) : ℝ) := by
    refine ofInt_model_rounds n ?_
    have hword : n.toUInt64.toNat = n := by
      rw [Nat.toUInt64, UInt64.toNat_ofNat']
      omega
    show Float.Model.pack (UnpackedFloat.normalize .binary64 (n.toUInt64.toNat : ℤ) 0 .positive) = _
    rw [hword]
  rw [Int.cast_natCast] at hrounds
  have hsmall : |(n : ℝ)| < 2 ^ (53 : ℤ) := by
    rw [Nat.abs_cast]
    exact_mod_cast hn
  have hfinite : n.toUInt64.toFloat.isFinite :=
    hrounds.finite (hsmall.trans (zpow_lt_zpow_right₀ (by norm_num) (by norm_num)))
  exact ⟨hfinite, hrounds.value_eq hfinite (representable_natCast hn)⟩

/-- Whether what is read from a number is a whole number. -/
def isWhole (n : ℕ) : UnpackedFloat → Bool
  | .finite .positive m e _ => m * 2 ^ e.toNat == n * 2 ^ (-e).toNat
  | _ => false

theorem value_of_isWhole {x : Float} {n : ℕ} (h : isWhole n x.toModel.unpack) :
    x.isFinite ∧ value x = n := by
  show x.toModel.unpack.isFinite = true ∧ unpackedValue x.toModel.unpack = n
  generalize x.toModel.unpack = u at *
  rcases u with s | _ | s | ⟨_ | _, m, e, hm⟩ <;> try cases h
  refine ⟨rfl, ?_⟩
  have hcross : (m : ℝ) * 2 ^ e.toNat = n * 2 ^ (-e).toNat := by exact_mod_cast beq_iff_eq.mp h
  have hsplit : e = (e.toNat : ℤ) - (-e).toNat := by omega
  show (m : ℝ) * 2 ^ e = n
  nth_rewrite 1 [hsplit]
  rw [zpow_sub₀ (by norm_num), zpow_natCast, zpow_natCast, mul_div_assoc', hcross,
    mul_div_cancel_right₀ _ (by positivity)]

/-- The powers of ten that fit a mantissa are exact. -/
theorem powerOfTen_isWhole : ∀ e : Fin Float.exactlyRepresentablePowersOfTen.size,
    isWhole (10 ^ e.val) Float.exactlyRepresentablePowersOfTen[e].toModel.unpack := by
  decide +kernel

/-! ## Decimal numbers -/

/-- Large powers of ten are too large. -/
theorem large_decimal {m : ℕ} (hm : 0 < m) {k : ℤ} (hk : 1024 ≤ k) :
    (2 : ℝ) ^ (1024 : ℤ) ≤ m * (10 : ℝ) ^ k := by
  have hone : (1 : ℝ) ≤ m := by exact_mod_cast hm
  calc (2 : ℝ) ^ (1024 : ℤ) ≤ 2 ^ k := zpow_le_zpow_right₀ (by norm_num) hk
    _ ≤ (10 : ℝ) ^ k := zpow_le_zpow_left₀ (by omega) (by norm_num) (by norm_num)
    _ ≤ m * (10 : ℝ) ^ k := by
        have hten : (0 : ℝ) ≤ 10 ^ k := by positivity
        exact le_mul_of_one_le_left hten hone

/-- Small powers of ten are too small. -/
theorem small_decimal {m : ℕ} {k : ℤ} (hk : k < -(2048 + m.log2 : ℤ)) :
    m * (10 : ℝ) ^ k < 2 ^ (-1075 : ℤ) := by
  have hlog : (m : ℝ) < 2 ^ ((m.log2 : ℤ) + 1) := by
    have hnat : m < 2 ^ (m.log2 + 1) := Nat.lt_log2_self
    exact_mod_cast hnat
  have hten : (10 : ℝ) ^ k ≤ 2 ^ k := by
    rw [← inv_inv ((10 : ℝ) ^ k), ← inv_inv ((2 : ℝ) ^ k), ← zpow_neg 10 k,
      ← zpow_neg 2 k]
    refine inv_anti₀ (by positivity) ?_
    exact zpow_le_zpow_left₀ (by omega) (by norm_num) (by norm_num)
  calc (m : ℝ) * (10 : ℝ) ^ k ≤ m * 2 ^ k := by gcongr
    _ < 2 ^ ((m.log2 : ℤ) + 1) * 2 ^ k := by gcongr
    _ = 2 ^ ((m.log2 : ℤ) + 1 + k) := (zpow_add₀ (by norm_num) _ _).symm
    _ ≤ 2 ^ (-1075 : ℤ) := zpow_le_zpow_right₀ (by norm_num) (by omega)

/-- A whole number is rounded after bits were shifted in. -/
theorem whole_decimal_grounded {m : ℕ} (hm : 0 < m) {k : ℤ} (hk : 0 ≤ k) :
    Grounded .positive (m * (10 : ℝ) ^ k)
      (roundWithAccuracy .binary64 .positive (m <<< 53 * 10 ^ k.toNat) (-53) .exact) := by
  have hvalue : (m : ℝ) * (10 : ℝ) ^ k = ((m <<< 53 * 10 ^ k.toNat : ℕ) : ℝ) * 2 ^ (-53 : ℤ) := by
    have hpower : (10 : ℝ) ^ k = 10 ^ k.toNat := by
      rw [← zpow_natCast, Int.toNat_of_nonneg hk]
    rw [hpower, Nat.shiftLeft_eq]
    push_cast
    rw [mul_right_comm, mul_assoc (m : ℝ)]
    norm_num
  rw [hvalue]
  refine roundWithAccuracy_eq .positive (accurate_exact _) (.inl ?_)
  have hten : 0 < 10 ^ k.toNat := by positivity
  rw [Nat.shiftLeft_eq]
  nlinarith

/-- A fraction is rounded as a quotient. -/
theorem fraction_decimal_grounded {m : ℕ} (hm : 0 < m) {k : ℤ} (hk : k < 0) :
    Grounded .positive (m * (10 : ℝ) ^ k) (roundWithAccuracy .binary64 .positive
      (divCore .binary64 m 0 (10 ^ (-k).toNat) 0).1
      (divCore .binary64 m 0 (10 ^ (-k).toNat) 0).2.1
      (divCore .binary64 m 0 (10 ^ (-k).toNat) 0).2.2) := by
  have hten : 0 < 10 ^ (-k).toNat := by positivity
  have hvalue : (m : ℝ) * (10 : ℝ) ^ k
      = m * 2 ^ (0 : ℤ) / ((10 ^ (-k).toNat : ℕ) * 2 ^ (0 : ℤ)) := by
    have hpower : (10 : ℝ) ^ k = (10 ^ (-k).toNat)⁻¹ := by
      rw [← zpow_natCast, ← zpow_neg]
      congr 1
      omega
    rw [hpower]
    push_cast
    rw [zpow_zero, mul_one, mul_one, div_eq_mul_inv]
  rw [hvalue]
  exact div_grounded .positive hm hten 0 0

theorem ofScientific_model_rounds {x : Float} (m : ℕ) (k : ℤ)
    (hmodel : x.toModel = Float.Model.pack (UnpackedFloat.ofScientific .binary64 m k)) :
    Rounds x (m * (10 : ℝ) ^ k) := by
  unfold UnpackedFloat.ofScientific at hmodel
  split at hmodel
  case isTrue hzero =>
    rw [hzero, Nat.cast_zero, zero_mul]
    exact ⟨.positive, 0, _, le_rfl, grounded_zero .positive, rfl, hmodel⟩
  case isFalse hne =>
  have hpos : 0 < m := Nat.pos_of_ne_zero hne
  split at hmodel
  case isTrue hlarge =>
    refine rounds_infinity (large_decimal hpos ?_) hmodel
    norm_num at hlarge
    omega
  case isFalse =>
  split at hmodel
  case isTrue hsmall =>
    refine rounds_zero (by positivity) (small_decimal ?_) hmodel
    norm_num at hsmall
    omega
  case isFalse =>
  split at hmodel
  case isTrue hk =>
    exact ⟨.positive, _, _, by positivity, whole_decimal_grounded hpos hk, rfl, hmodel⟩
  case isFalse hk =>
    exact ⟨.positive, _, _, by positivity, fraction_decimal_grounded hpos (by omega), rfl, hmodel⟩

/-- **Decimal numbers.** A decimal number is rounded from its value. -/
theorem ofScientific_rounds (m : ℕ) (isNegative : Bool) (e : ℕ) :
    Rounds (Float.ofScientific m isNegative e)
      (m * (10 : ℝ) ^ (if isNegative then -(e : ℤ) else e)) := by
  generalize hk : (if isNegative then -(e : ℤ) else e) = k
  unfold Float.ofScientific
  split
  · next hshort =>
      obtain ⟨hfinite, hvalue⟩ := toFloat_spec hshort.1
      have he : e < Float.exactlyRepresentablePowersOfTen.size := Nat.lt_succ_of_le hshort.2
      obtain ⟨hfinite', hwhole⟩ := value_of_isWhole (powerOfTen_isWhole ⟨e, he⟩)
      have hvalue' := hwhole.trans (show ((10 ^ e : ℕ) : ℝ) = 10 ^ e by push_cast; rfl)
      cases isNegative with
      | false =>
          obtain rfl : (e : ℤ) = k := hk
          have hmul := mul_rounds hfinite hfinite'
          rw [hvalue, hvalue'] at hmul
          rw [zpow_natCast]
          exact hmul
      | true =>
          obtain rfl : -(e : ℤ) = k := hk
          have hdiv := div_rounds hfinite hfinite' (by rw [hvalue']; positivity)
          rw [hvalue, hvalue'] at hdiv
          rw [zpow_neg, zpow_natCast, ← div_eq_mul_inv]
          exact hdiv
  · have hexponent : (if isNegative then Int.negOfNat e else Int.ofNat e) = k := by
      rw [← hk, Int.negOfNat_eq]
      rfl
    simp only [hexponent]
    exact ofScientific_model_rounds m k rfl

/-- A decimal limit below one is finite, and not less than a power of two that it is not less than
exactly. -/
theorem le_ofScientific {n : ℤ} {k : ℕ} (hn : -1074 ≤ n)
    (h : (2 : ℝ) ^ n ≤ 10 ^ (-(k : ℤ))) :
    (Float.ofScientific 1 true k).isFinite ∧ 2 ^ n ≤ value (Float.ofScientific 1 true k) := by
  have hrounds := ofScientific_rounds 1 true k
  rw [if_pos rfl, Nat.cast_one, one_mul] at hrounds
  have hle : (10 : ℝ) ^ (-(k : ℤ)) ≤ 2 ^ (0 : ℤ) := by
    rw [zpow_zero]
    exact zpow_le_one_of_nonpos₀ (by norm_num) (by omega)
  have hpos : n ≤ 0 := (zpow_le_zpow_iff_right₀ (by norm_num)).mp (h.trans hle)
  have hfinite := hrounds.finite (by
    rw [abs_of_pos (by positivity)]
    exact hle.trans_lt (zpow_lt_zpow_right₀ (by norm_num) (by norm_num)))
  exact ⟨hfinite, (hrounds.nearest hfinite).le_of_le (representable_two_zpow hn (by omega)) h⟩

/-- A whole number is rounded from its value. -/
theorem ofNat_rounds (n : ℕ) : Rounds (Float.ofNat n) n := by
  have hrounds := ofScientific_rounds n false 0
  rw [if_neg Bool.false_ne_true, Nat.cast_zero, zpow_zero, mul_one] at hrounds
  exact hrounds

/-- A whole number that fits a mantissa is exact. -/
theorem ofNat_spec {n : ℕ} (hn : n < 2 ^ 53) :
    (Float.ofNat n).isFinite ∧ value (Float.ofNat n) = n := by
  have hsmall : |(n : ℝ)| < 2 ^ (53 : ℤ) := by
    rw [Nat.abs_cast]
    exact_mod_cast hn
  have hfinite := (ofNat_rounds n).finite
    (hsmall.trans (zpow_lt_zpow_right₀ (by norm_num) (by norm_num)))
  exact ⟨hfinite, (ofNat_rounds n).value_eq hfinite (representable_natCast hn)⟩

/-- A whole number of 64 bits is finite. -/
theorem ofNat_word_spec {n : ℕ} (hn : n < UInt64.size) :
    (Float.ofNat n).isFinite ∧ |value (Float.ofNat n)| ≤ 2 ^ (64 : ℤ) := by
  have hsmall : |(n : ℝ)| < 2 ^ (64 : ℤ) := by
    rw [Nat.abs_cast]
    exact_mod_cast hn
  have hfinite := (ofNat_rounds n).finite
    (hsmall.trans (zpow_lt_zpow_right₀ (by norm_num) (by norm_num)))
  have hword := representable_two_zpow (show -1074 ≤ (64 : ℤ) by norm_num) (by norm_num)
  exact ⟨hfinite, ((ofNat_rounds n).nearest hfinite).abs_le_of_abs_le hword hsmall.le⟩

theorem isFinite_ofInt {n : ℤ} (hn : n.natAbs < UInt64.size) : (Float.ofInt n).isFinite := by
  cases n with
  | ofNat n => exact (ofNat_word_spec hn).1
  | negSucc n => exact (neg_spec (ofNat_word_spec hn).1).1

/-! ## The range of decimal numbers -/

/-- A power of ten is not less than that of eight. -/
theorem pow_le_ten {k : ℤ} (hk : 400 ≤ k) : (2 : ℝ) ^ (1200 : ℤ) ≤ 10 ^ k := by
  calc (2 : ℝ) ^ (1200 : ℤ) = (2 ^ (3 : ℤ)) ^ (400 : ℤ) := by
        rw [← zpow_mul]
        norm_num
    _ ≤ 10 ^ (400 : ℤ) := zpow_le_zpow_left₀ (by norm_num) (by norm_num) (by norm_num)
    _ ≤ (10 : ℝ) ^ k := zpow_le_zpow_right₀ (by norm_num) hk

/-- A finite number comes from a decimal with no more digits before the point than this. -/
theorem Rounds.lt_of_pow_le {x : Float} {y : ℝ} (h : Rounds x y) (hx : x.isFinite) {k : ℤ}
    (hy : (10 : ℝ) ^ k ≤ y) : k < 400 := by
  by_contra hk
  have hlarge := (pow_le_ten (not_lt.mp hk)).trans hy
  have herror := (h.nearest hx).error_le
  have hbound := (representable_value x).abs_le
  have hpow : (2 : ℝ) ^ (1200 : ℤ) = 2 ^ (229 : ℤ) * 2 ^ (971 : ℤ) := by
    rw [← zpow_add₀ (by norm_num)]
    norm_num
  have hone : (1 : ℝ) ≤ 2 ^ (971 : ℤ) := one_le_zpow₀ (by norm_num) (by norm_num)
  have hless : (2 : ℝ) ^ (-1075 : ℤ) ≤ 1 := zpow_le_one_of_nonpos₀ (by norm_num) (by norm_num)
  rw [hpow] at hlarge
  clear hpow
  generalize (2 : ℝ) ^ (971 : ℤ) = step at *
  generalize (2 : ℝ) ^ (-1075 : ℤ) = least at *
  have hpos : 0 < y := by
    have hstep : (2 : ℝ) ^ (229 : ℤ) * 1 ≤ 2 ^ (229 : ℤ) * step := by gcongr
    norm_num at hstep hlarge
    linarith
  rw [abs_of_pos hpos] at herror
  have hdistance := abs_le.mp herror
  have hvalue := abs_le.mp hbound
  norm_num at hdistance hvalue hlarge
  linarith

/-- A decimal with more zeros after the point than this is rounded to zero. -/
theorem Rounds.value_eq_zero {x : Float} {y : ℝ} (h : Rounds x y) (hx : x.isFinite)
    (hnonneg : 0 ≤ y) {k : ℤ} (hk : k ≤ -400) (hy : y < (10 : ℝ) ^ k) : value x = 0 := by
  refine (representable_value x).eq_zero ?_
  have hsmall : y < 2 ^ (-1200 : ℤ) := by
    refine hy.trans_le ?_
    have hinverse := inv_anti₀ (by positivity) (pow_le_ten (k := -k) (by omega))
    rwa [← zpow_neg, ← zpow_neg, neg_neg] at hinverse
  have herror := (h.nearest hx).error_le
  have hpow : (2 : ℝ) ^ (-1200 : ℤ) = 2 ^ (-125 : ℤ) * 2 ^ (-1075 : ℤ) := by
    rw [← zpow_add₀ (by norm_num)]
    norm_num
  have htwo : (2 : ℝ) ^ (-1074 : ℤ) = 2 * 2 ^ (-1075 : ℤ) := by
    rw [show (-1074 : ℤ) = 1 + -1075 by norm_num, zpow_add₀ (by norm_num), zpow_one]
  rw [hpow] at hsmall
  rw [htwo]
  clear hpow htwo
  have hpos : (0 : ℝ) < 2 ^ (-1075 : ℤ) := by positivity
  generalize (2 : ℝ) ^ (-1075 : ℤ) = least at *
  rw [abs_of_nonneg hnonneg] at herror
  have hdistance := abs_le.mp herror
  norm_num at hdistance hsmall
  rw [abs_lt]
  constructor <;> linarith

/-! ## Comparisons with zero -/

section

variable {x : Float}

theorem isFinite_zero : (0 : Float).isFinite := (ofNat_spec (by norm_num)).1

theorem value_zero : value 0 = 0 := (ofNat_spec (by norm_num)).2.trans Nat.cast_zero

/-- There is one zero without a sign. -/
theorem abs_eq_zero (hx : x.isFinite) (h : value x.abs = 0) : x.abs = 0 := by
  have hzero : (0 : Float).toModel.unpack = .zero .positive := rfl
  refine eq_of_unpack_eq ?_
  rw [abs_unpack hx, hzero]
  rcases finite_cases hx with ⟨s, hu, -⟩ | ⟨s, m, e, hc, hu, hv⟩
  · rw [hu]
    rfl
  · rw [(abs_spec hx).2, hv, abs_signed, abs_of_pos hc.value_pos] at h
    exact absurd h hc.value_pos.ne'

/-- A finite number that is not negative is zero or more. -/
theorem not_lt_zero_iff (hx : x.isFinite) : ¬ x < 0 ↔ 0 ≤ x := by
  rw [lt_iff hx isFinite_zero, le_iff isFinite_zero hx, not_lt]

/-- A positive number is finite, or it is infinity. -/
theorem isFinite_of_pos (hpos : 0 < x) (hinf : x.isInf = false) : x.isFinite := by
  replace hpos : ((0 : Float).toModel.unpack.compare x.toModel.unpack == some .lt) = true :=
    of_decide_eq_true hpos
  replace hinf : x.toModel.unpack.isInf = false := hinf
  show x.toModel.unpack.isFinite = true
  cases hu : x.toModel.unpack with
  | notANumber =>
      rw [hu] at hpos
      rcases finite_cases isFinite_zero with ⟨s, hzero, -⟩ | ⟨s, m, e, hc, hzero, -⟩ <;>
        rw [hzero] at hpos <;>
        cases s <;> cases hpos
  | infinity s =>
      rw [hu] at hinf
      cases hinf
  | _ => rfl

/-- A positive number has no negative value: it has a positive one, or none and is infinite. -/
theorem value_nonneg_of_pos (hpos : 0 < x) : 0 ≤ value x := by
  by_cases hx : x.isFinite
  · rw [lt_iff isFinite_zero hx, value_zero] at hpos
    exact hpos.le
  · rw [value_eq_zero (by simpa using hx)]

theorem unpack_of_infinite (hpos : 0 < x) (hinf : x.isInf) :
    x.toModel.unpack = .infinity .positive := by
  have hzero : (0 : Float).toModel.unpack = .zero .positive := rfl
  replace hpos : ((0 : Float).toModel.unpack.compare x.toModel.unpack == some .lt) = true :=
    of_decide_eq_true hpos
  replace hinf : x.toModel.unpack.isInf = true := hinf
  rw [hzero] at hpos
  cases hu : x.toModel.unpack with
  | infinity s =>
      rw [hu] at hpos
      cases s with
      | positive => rfl
      | negative => cases hpos
  | _ =>
      rw [hu] at hinf
      cases hinf

/-- There is one positive infinite number. -/
theorem eq_infinity (hpos : 0 < x) (hinf : x.isInf) : x = 1.0 / 0.0 :=
  eq_of_unpack_eq ((unpack_of_infinite hpos hinf).trans
    (unpack_of_infinite (x := 1.0 / 0.0) (by decide +kernel) (by decide +kernel)).symm)

end

end RideHud.Binary64
