import Mathlib

/-!
# The values of binary64 numbers

A number is told by what is read from its bits, and what is read is stored as it is (`unpack_spec`).
Finite numbers are compared by their values (`lt_iff`, `le_iff`, `beq_iff`), and these are what 53
bits and an exponent can represent (`representable_value`).
-/

namespace RideHud.Binary64

open Float.Model (UnpackedFloat Format totalExponent)
open Float.Model.UnpackedFloat

/-! ## Bits -/

/-- A mantissa and an exponent as they are stored: the mantissa has 53 bits, or the exponent is the
least one. -/
structure Canonical (m : ℕ) (e : ℤ) : Prop where
  pos : 0 < m
  lt : m < 2 ^ 53
  le_exponent : -1074 ≤ e
  exponent_le : e ≤ 971
  full : 2 ^ 52 ≤ m ∨ e = -1074

theorem ofBitVec_unpackSign (s : Sign) (e : BitVec 11) (m : BitVec 52) :
    Sign.ofBitVec (unpackSign (packComponents .binary64 s e m)) = s := by
  simp only [unpackSign, packComponents, BitVec.extractLsb]
  rw [BitVec.extractLsb'_append_eq_of_le (by omega), BitVec.extractLsb'_append_eq_of_le (by omega)]
  cases s <;> rfl

/-- The mantissa of a normal number has its first bit in front. -/
theorem toNat_append_one (m : BitVec 52) : (1#1 ++ m).toNat = 2 ^ 52 + m.toNat := by
  rw [BitVec.toNat_append, ← Nat.shiftLeft_add_eq_or_of_lt m.isLt]
  rfl

/-- Numbers with all bits of the exponent set. -/
theorem unpack_special (s : Sign) (m : BitVec 52) :
    unpack .binary64 (packComponents .binary64 s (-1#11) m)
      = if m = 0#52 then .infinity s else .notANumber := by
  unfold unpack
  simp only [unpackMantissa_packComponents, unpackExponent_packComponents, ofBitVec_unpackSign,
    if_true]

/-- Numbers with the least exponent, of which zero is one. -/
theorem unpack_subnormal (s : Sign) (m : BitVec 52) :
    unpack .binary64 (packComponents .binary64 s 0#11 m)
      = if h : m = 0#52 then .zero s
        else .finite s m.toNat (-1074) (by simpa [BitVec.toNat_pos, BitVec.pos_iff_ne_zero]) := by
  unfold unpack
  simp only [unpackMantissa_packComponents, unpackExponent_packComponents, ofBitVec_unpackSign,
    if_true]
  rw [if_neg (by decide)]
  rfl

/-- All other numbers. -/
theorem unpack_normal (s : Sign) {e : BitVec 11} (hmax : e ≠ -1#11) (hmin : e ≠ 0#11)
    (m : BitVec 52) :
    unpack .binary64 (packComponents .binary64 s e m)
      = .finite s (2 ^ 52 + m.toNat) (e.toNat - 1075)
        (Nat.add_pos_left (Nat.two_pow_pos 52) _) := by
  unfold unpack
  simp only [unpackMantissa_packComponents, unpackExponent_packComponents, ofBitVec_unpackSign]
  rw [if_neg hmax, if_neg hmin]
  simp only [toNat_append_one]
  rfl

theorem log2_eq {m : ℕ} (hle : 2 ^ 52 ≤ m) (hlt : m < 2 ^ 53) : m.log2 = 52 :=
  (Nat.log2_eq_iff (by omega)).mpr ⟨hle, hlt⟩

theorem exponentBias_eq : (Format.binary64.exponentBias : ℤ) = 1023 := rfl

theorem mantissaBits_eq : Format.binary64.mantissaBits = 53 := rfl

theorem pack_normal (s : Sign) {m : ℕ} {e : ℤ} (h : Canonical m e) (hfull : 2 ^ 52 ≤ m) :
    pack .binary64 (.finite s m e h.pos)
      = packComponents .binary64 s (BitVec.ofNat 11 (e + 1075).toNat) (BitVec.ofNat 52 m) := by
  have hle := h.exponent_le
  have hge := h.le_exponent
  have he : e + 1023 + (52 : ℕ) = e + 1075 := by omega
  unfold pack
  simp only [exponentBias_eq, mantissaBits_eq, he, log2_eq hfull h.lt, if_true]
  rw [if_neg (by omega)]

theorem pack_subnormal (s : Sign) {m : ℕ} (hpos : 0 < m) (hlt : m < 2 ^ 52) :
    pack .binary64 (.finite s m (-1074) hpos)
      = packComponents .binary64 s 0#11 (BitVec.ofNat 52 m) := by
  have hlog := (Nat.log2_lt (by omega)).mpr hlt
  have hshort : m.log2 + 1 ≠ 53 := by omega
  unfold pack
  simp only [exponentBias_eq, mantissaBits_eq, hshort, if_false]
  exact if_neg (by decide)

/-- A number whose exponent is too large is stored as infinity. -/
theorem pack_large (s : Sign) {m : ℕ} {e : ℤ} (hpos : 0 < m) (he : 971 < e) :
    pack .binary64 (.finite s m e hpos) = packComponents .binary64 s (-1#11) 0#52 := by
  unfold pack
  simp only [exponentBias_eq]
  exact if_pos (by omega)

/-- What is stored can be read. -/
theorem Canonical.unpack_pack {m : ℕ} {e : ℤ} (h : Canonical m e) (s : Sign) :
    (Float.Model.pack (.finite s m e h.pos)).unpack = .finite s m e h.pos := by
  show unpack .binary64 (pack .binary64 (.finite s m e h.pos)) = _
  have hlt := h.lt
  have hle := h.exponent_le
  have hge := h.le_exponent
  by_cases hfull : 2 ^ 52 ≤ m
  · have he : (BitVec.ofNat 11 (e + 1075).toNat).toNat = (e + 1075).toNat := by
      rw [BitVec.toNat_ofNat]
      omega
    have hm : (BitVec.ofNat 52 m).toNat = m - 2 ^ 52 := by
      rw [BitVec.toNat_ofNat]
      omega
    rw [pack_normal s h hfull, unpack_normal s]
    · congr 1
      · omega
      · omega
    · intro hmax
      have hbits := congrArg BitVec.toNat hmax
      rw [he] at hbits
      change _ = 2047 at hbits
      omega
    · intro hmin
      have hbits := congrArg BitVec.toNat hmin
      rw [he] at hbits
      change _ = 0 at hbits
      omega
  · -- The exponent is the least one.
    obtain rfl : e = -1074 := h.full.resolve_left hfull
    have hm : (BitVec.ofNat 52 m).toNat = m := by
      rw [BitVec.toNat_ofNat]
      omega
    have hpos := h.pos
    rw [pack_subnormal s h.pos (by omega), unpack_subnormal, dif_neg]
    · congr 1
    · intro hzero
      have hbits := congrArg BitVec.toNat hzero
      rw [hm] at hbits
      change m = 0 at hbits
      omega

theorem unpack_pack_zero (s : Sign) : (Float.Model.pack (.zero s)).unpack = .zero s := by
  cases s <;> rfl

theorem unpack_pack_infinity (s : Sign) :
    (Float.Model.pack (.infinity s)).unpack = .infinity s := by
  cases s <;> rfl

theorem unpack_pack_large (s : Sign) {m : ℕ} {e : ℤ} (hpos : 0 < m) (he : 971 < e) :
    (Float.Model.pack (.finite s m e hpos)).unpack = .infinity s := by
  show unpack .binary64 (pack .binary64 (.finite s m e hpos)) = _
  rw [pack_large s hpos he, unpack_special, if_pos rfl]

/-- All bits are those of the sign, of the exponent and of the mantissa. -/
theorem packComponents_unpack (b : BitVec 64) :
    packComponents .binary64 (Sign.ofBitVec (@unpackSign .binary64 b))
      (@unpackExponent .binary64 b) (@unpackMantissa .binary64 b) = b := by
  have hsign (c : BitVec 1) : (Sign.ofBitVec c).toBitVec = c := by
    revert c
    decide
  have hbits :
      (b.extractLsb' 63 1 ++ b.extractLsb' 52 11 : BitVec 12) ++ b.extractLsb' 0 52 = b := by
    rw [BitVec.extractLsb'_append_extractLsb'_eq_extractLsb' (by decide),
      BitVec.extractLsb'_append_extractLsb'_eq_extractLsb' (by decide)]
    exact BitVec.extractLsb'_eq_self
  rw [packComponents, hsign]
  exact hbits

/-- A number is told by its bits. -/
theorem pack_eq {v : Float.Model} {u : UnpackedFloat} (h : pack .binary64 u = v.toBits.toBitVec) :
    Float.Model.pack u = v := by
  obtain ⟨bits, hvalid⟩ := v
  have hbits : UInt64.ofBitVec (pack .binary64 u) = bits := by
    rw [h]
  unfold Float.Model.pack
  congr

section

variable (s : Sign) {e : BitVec 11} (m : BitVec 52)

/-- The mantissa and the exponent of a normal number. -/
theorem canonical_normal (hmax : e ≠ -1#11) (hmin : e ≠ 0#11) :
    Canonical (2 ^ 52 + m.toNat) (e.toNat - 1075) := by
  have hm : m.toNat < 2 ^ 52 := m.isLt
  have he : e.toNat < 2 ^ 11 := e.isLt
  have hlt : e.toNat < 2047 :=
    Nat.lt_of_le_of_ne (by omega) fun htop => hmax (BitVec.eq_of_toNat_eq htop)
  have hpos : 0 < e.toNat := by simpa [BitVec.toNat_pos, BitVec.pos_iff_ne_zero]
  exact ⟨by positivity, by omega, by omega, by omega, .inl (by omega)⟩

/-- The mantissa and the exponent of a finite number are stored. -/
theorem canonical_of_unpack {s' : Sign} {m' : ℕ} {e' : ℤ} {hpos : 0 < m'}
    (h : unpack .binary64 (packComponents .binary64 s e m) = .finite s' m' e' hpos) :
    Canonical m' e' := by
  have hm : m.toNat < 2 ^ 52 := m.isLt
  by_cases hmax : e = -1#11
  · rw [hmax, unpack_special] at h
    split at h <;> cases h
  by_cases hmin : e = 0#11
  · rw [hmin, unpack_subnormal] at h
    split at h
    · cases h
    · cases h
      exact ⟨hpos, by omega, by omega, by omega, .inr rfl⟩
  · rw [unpack_normal s hmax hmin] at h
    cases h
    exact canonical_normal m hmax hmin

/-- The bits of a number are told by what is read from them. -/
theorem pack_unpack (hnan : e = -1#11 → m ≠ 0#52 →
      pack .binary64 .notANumber = packComponents .binary64 s e m) :
    pack .binary64 (unpack .binary64 (packComponents .binary64 s e m))
      = packComponents .binary64 s e m := by
  by_cases hmax : e = -1#11
  · rw [hmax, unpack_special]
    split
    · next hzero =>
        rw [hzero]
        rfl
    · next hne => exact hmax ▸ hnan hmax hne
  by_cases hmin : e = 0#11
  · rw [hmin, unpack_subnormal]
    split
    · next hzero =>
        rw [hzero]
        rfl
    · next hne =>
        have hpos : 0 < m.toNat := by simpa [BitVec.toNat_pos, BitVec.pos_iff_ne_zero]
        rw [pack_subnormal s hpos m.isLt, BitVec.ofNat_toNat, BitVec.setWidth_eq]
  · have hcanonical := canonical_normal m hmax hmin
    have hexponent : ((e.toNat : ℤ) - 1075 + 1075).toNat = e.toNat := by omega
    have hmantissa : BitVec.ofNat 52 (2 ^ 52 + m.toNat) = m := by
      apply BitVec.eq_of_toNat_eq
      rw [BitVec.toNat_ofNat]
      omega
    rw [unpack_normal s hmax hmin, pack_normal s hcanonical (by omega), hexponent, hmantissa,
      BitVec.ofNat_toNat, BitVec.setWidth_eq]

end

/-- What is read from a number tells the number, and is stored as it is. -/
theorem unpack_spec (v : Float.Model) :
    Float.Model.pack v.unpack = v ∧
      ∀ s m e hpos, v.unpack = .finite s m e hpos → Canonical m e := by
  have hbits := packComponents_unpack v.toBits.toBitVec
  revert hbits
  generalize Sign.ofBitVec (@unpackSign .binary64 v.toBits.toBitVec) = s
  generalize @unpackExponent .binary64 v.toBits.toBitVec = e
  generalize @unpackMantissa .binary64 v.toBits.toBitVec = m
  intro hbits
  have hunpack : v.unpack = unpack .binary64 (packComponents .binary64 s e m) := by
    rw [hbits]
    rfl
  refine ⟨pack_eq ?_, fun s' m' e' hpos h => canonical_of_unpack s m (hunpack.symm.trans h)⟩
  rw [hunpack, pack_unpack, hbits]
  -- There is one sequence of bits for what is no number.
  intro hmax hne
  rw [hbits]
  refine (v.valid.eq_packedNaN ?_ ?_).symm
  · rw [← hbits, unpackExponent_packComponents, hmax]
  · rwa [← hbits, unpackMantissa_packComponents]

/-! ## Values -/

/-- A number with a sign. -/
def signed (s : Sign) (y : ℝ) : ℝ :=
  match s with
  | .negative => -y
  | .positive => y

@[simp] theorem signed_negative (y : ℝ) : signed .negative y = -y := rfl

@[simp] theorem signed_positive (y : ℝ) : signed .positive y = y := rfl

@[simp] theorem abs_signed (s : Sign) (y : ℝ) : |signed s y| = |y| := by
  cases s with
  | negative => exact abs_neg y
  | positive => rfl

/-- The value of what is read from a number; zero if that is not finite. -/
noncomputable def unpackedValue : UnpackedFloat → ℝ
  | .finite s m e _ => signed s (m * 2 ^ e)
  | _ => 0

/-- The value of a number; zero if it is not finite. -/
noncomputable def value (x : Float) : ℝ := unpackedValue x.toModel.unpack

namespace Canonical

variable {m m' : ℕ} {e e' : ℤ}

theorem value_pos (h : Canonical m e) : (0 : ℝ) < m * 2 ^ e := by
  have hpos : (0 : ℝ) < m := by exact_mod_cast h.pos
  positivity

/-- The exponent decides first. -/
theorem lt_of_exponent_lt (h : Canonical m e) (h' : Canonical m' e') (he : e < e') :
    (m : ℝ) * 2 ^ e < m' * 2 ^ e' := by
  -- The greater exponent is not the least one, so its mantissa is full.
  have hfull : 2 ^ 52 ≤ m' := h'.full.resolve_right fun hmin => by
    have hge := h.le_exponent
    omega
  have hm : (m : ℝ) < 2 ^ 53 := by exact_mod_cast h.lt
  have hm' : (2 : ℝ) ^ 52 ≤ m' := by exact_mod_cast hfull
  calc (m : ℝ) * 2 ^ e < 2 ^ 53 * 2 ^ e := by gcongr
    _ = 2 ^ 52 * 2 ^ (e + 1) := by
        rw [zpow_add₀ (by norm_num)]
        ring
    _ ≤ 2 ^ 52 * 2 ^ e' := by
        gcongr
        · norm_num
        · omega
    _ ≤ m' * 2 ^ e' := by gcongr

/-- Numbers are compared by their exponents, and then by their mantissas. -/
theorem compare_eq_cmp (h : Canonical m e) (h' : Canonical m' e') :
    (compare e e').then (compare m m') = cmp ((m : ℝ) * 2 ^ e) (m' * 2 ^ e') := by
  rcases lt_trichotomy e e' with he | rfl | he
  · rw [Int.compare_eq_lt.mpr he, (cmp_eq_lt_iff _ _).mpr (h.lt_of_exponent_lt h' he)]
    rfl
  · rw [Int.compare_eq_eq.mpr rfl]
    have hpow : (0 : ℝ) < 2 ^ e := by positivity
    rcases lt_trichotomy m m' with hm | rfl | hm
    · rw [Nat.compare_eq_lt.mpr hm, (cmp_eq_lt_iff _ _).mpr (by gcongr)]
      rfl
    · rw [Nat.compare_eq_eq.mpr rfl, (cmp_eq_eq_iff _ _).mpr rfl]
      rfl
    · rw [Nat.compare_eq_gt.mpr hm, (cmp_eq_gt_iff _ _).mpr (by gcongr)]
      rfl
  · rw [Int.compare_eq_gt.mpr he, (cmp_eq_gt_iff _ _).mpr (h'.lt_of_exponent_lt h he)]
    rfl

end Canonical

/-- A finite number is zero, or it is stored with a mantissa and an exponent. -/
theorem finite_cases {x : Float} (h : x.isFinite) :
    (∃ s, x.toModel.unpack = .zero s ∧ value x = 0) ∨
      ∃ s m e, ∃ hc : Canonical m e, x.toModel.unpack = .finite s m e hc.pos ∧
        value x = signed s (m * 2 ^ e) := by
  have hspec := (unpack_spec x.toModel).2
  replace h : x.toModel.unpack.isFinite = true := h
  unfold value
  cases hu : x.toModel.unpack with
  | notANumber => rw [hu] at h; cases h
  | infinity s => rw [hu] at h; cases h
  | zero s => exact .inl ⟨s, rfl, rfl⟩
  | finite s m e hpos => exact .inr ⟨s, m, e, hspec s m e hpos hu, rfl, rfl⟩

/-- What is not finite has no value. -/
theorem value_eq_zero {x : Float} (h : x.isFinite = false) : value x = 0 := by
  replace h : x.toModel.unpack.isFinite = false := h
  unfold value
  cases hu : x.toModel.unpack with
  | finite s m e hpos => rw [hu] at h; cases h
  | _ => rfl

/-- What is not infinite, and a number, is finite. -/
theorem isFinite_of_not_isInf {x : Float} (hinf : x.isInf = false) (hnan : x.isNaN = false) :
    x.isFinite := by
  replace hinf : x.toModel.unpack.isInf = false := hinf
  replace hnan : x.toModel.unpack.isNaN = false := hnan
  show x.toModel.unpack.isFinite = true
  generalize x.toModel.unpack = u at *
  cases u with
  | notANumber => cases hnan
  | infinity s => cases hinf
  | _ => rfl

theorem isInf_of_isFinite {x : Float} (hx : x.isFinite) : x.isInf = false := by
  replace hx : x.toModel.unpack.isFinite = true := hx
  show x.toModel.unpack.isInf = false
  generalize x.toModel.unpack = u at *
  cases u with
  | infinity s => cases hx
  | _ => rfl

theorem isNaN_of_isFinite {x : Float} (hx : x.isFinite) : x.isNaN = false := by
  replace hx : x.toModel.unpack.isFinite = true := hx
  show x.toModel.unpack.isNaN = false
  generalize x.toModel.unpack = u at *
  cases u with
  | notANumber => cases hx
  | _ => rfl

/-- Finite numbers are compared by their values. -/
theorem compare_eq_cmp {x y : Float} (hx : x.isFinite) (hy : y.isFinite) :
    x.toModel.unpack.compare y.toModel.unpack = some (cmp (value x) (value y)) := by
  rcases finite_cases hx with ⟨s, hu, hv⟩ | ⟨s, m, e, hc, hu, hv⟩ <;>
    rcases finite_cases hy with ⟨s', hu', hv'⟩ | ⟨s', m', e', hc', hu', hv'⟩ <;>
    rw [hu, hu', hv, hv']
  · rw [(cmp_eq_eq_iff _ _).mpr rfl]
    rfl
  · have hpos := hc'.value_pos
    cases s' with
    | negative => rw [signed_negative, (cmp_eq_gt_iff _ _).mpr (neg_lt_zero.mpr hpos)]; rfl
    | positive => rw [signed_positive, (cmp_eq_lt_iff _ _).mpr hpos]; rfl
  · have hpos := hc.value_pos
    cases s with
    | negative => rw [signed_negative, (cmp_eq_lt_iff _ _).mpr (neg_lt_zero.mpr hpos)]; rfl
    | positive => rw [signed_positive, (cmp_eq_gt_iff _ _).mpr hpos]; rfl
  · have hpos := hc.value_pos
    have hpos' := hc'.value_pos
    have hlt := hc.compare_eq_cmp hc'
    cases s with
    | negative =>
        cases s' with
        | negative =>
            show some ((compare e e').then (compare m m')).swap = _
            rw [hlt, signed_negative, signed_negative, cmp_swap]
            simp only [cmp, cmpUsing, neg_lt_neg_iff]
        | positive =>
            rw [signed_negative, signed_positive,
              (cmp_eq_lt_iff _ _).mpr ((neg_lt_zero.mpr hpos).trans hpos')]
            rfl
    | positive =>
        cases s' with
        | negative =>
            rw [signed_negative, signed_positive,
              (cmp_eq_gt_iff _ _).mpr ((neg_lt_zero.mpr hpos').trans hpos)]
            rfl
        | positive => exact congrArg some hlt

section

variable {x y : Float}

theorem lt_iff (hx : x.isFinite) (hy : y.isFinite) : x < y ↔ value x < value y := by
  show decide (x.toModel < y.toModel) = true ↔ _
  rw [decide_eq_true_iff]
  show (x.toModel.unpack.compare y.toModel.unpack == some .lt) = true ↔ _
  rw [compare_eq_cmp hx hy, ← cmp_eq_lt_iff]
  simp

theorem le_iff (hx : x.isFinite) (hy : y.isFinite) : x ≤ y ↔ value x ≤ value y := by
  show decide (x.toModel ≤ y.toModel) = true ↔ _
  rw [decide_eq_true_iff]
  show ((x.toModel.unpack.compare y.toModel.unpack).any (·.isLE)) = true ↔ _
  rw [compare_eq_cmp hx hy]
  show (cmp (value x) (value y)).isLE = true ↔ _
  rcases lt_trichotomy (value x) (value y) with hlt | heq | hgt
  · simp [(cmp_eq_lt_iff _ _).mpr hlt, hlt.le]
  · simp [heq]
  · simp [(cmp_eq_gt_iff _ _).mpr hgt, hgt]

theorem beq_iff (hx : x.isFinite) (hy : y.isFinite) : x == y ↔ value x = value y := by
  show (x.toModel.unpack.compare y.toModel.unpack == some .eq) = true ↔ _
  rw [compare_eq_cmp hx hy, ← cmp_eq_eq_iff]
  simp

/-- What equals a finite number is finite. -/
theorem isFinite_of_beq (h : x == y) (hy : y.isFinite) : x.isFinite := by
  replace h : (x.toModel.unpack.compare y.toModel.unpack == some .eq) = true := h
  show x.toModel.unpack.isFinite = true
  cases hu : x.toModel.unpack with
  | notANumber =>
      rw [hu] at h
      cases h
  | infinity s =>
      rw [hu] at h
      rcases finite_cases hy with ⟨s', hu', -⟩ | ⟨s', m, e, hc, hu', -⟩ <;>
        rw [hu'] at h <;>
        cases s <;> cases s' <;> cases h
  | _ => rfl

/-- A number is told by what is read from it. -/
theorem eq_of_unpack_eq (h : x.toModel.unpack = y.toModel.unpack) : x = y := by
  have hmodel : x.toModel = y.toModel := by
    rw [← (unpack_spec x.toModel).1, h, (unpack_spec y.toModel).1]
  obtain ⟨model⟩ := x
  obtain ⟨model'⟩ := y
  exact congrArg Float.ofModel hmodel

/-- Numbers other than zero are told by their values. -/
theorem eq_of_value_eq (hvalue : value x = value y) (hne : value x ≠ 0) : x = y := by
  have hx : x.isFinite := by
    by_contra hinf
    exact hne (value_eq_zero (by simpa using hinf))
  have hy : y.isFinite := by
    by_contra hinf
    exact hne (hvalue.trans (value_eq_zero (by simpa using hinf)))
  refine eq_of_unpack_eq ?_
  rcases finite_cases hx with ⟨s, hu, hv⟩ | ⟨s, m, e, hc, hu, hv⟩
  · exact absurd hv hne
  rcases finite_cases hy with ⟨s', hu', hv'⟩ | ⟨s', m', e', hc', hu', hv'⟩
  · exact absurd (hvalue.trans hv') hne
  rw [hv, hv'] at hvalue
  have hpos := hc.value_pos
  have hpos' := hc'.value_pos
  -- The signs are the same, and so are the exponents and the mantissas.
  have hsign : s = s' := by
    cases s <;> cases s' <;> simp only [signed_negative, signed_positive] at hvalue
    · rfl
    · linarith
    · linarith
    · rfl
  have hsame : (m : ℝ) * 2 ^ e = m' * 2 ^ e' := by
    have habs := congrArg (fun y : ℝ => |y|) hvalue
    rwa [abs_signed, abs_signed, abs_of_pos hpos, abs_of_pos hpos'] at habs
  have hcompare := hc.compare_eq_cmp hc'
  rw [(cmp_eq_eq_iff _ _).mpr hsame, Ordering.then_eq_eq] at hcompare
  obtain ⟨he, hm⟩ := hcompare
  obtain rfl := hsign
  obtain rfl := Int.compare_eq_eq.mp he
  obtain rfl := Nat.compare_eq_eq.mp hm
  rw [hu, hu']

end

/-! ## Representable numbers -/

/-- The values of binary64 numbers. -/
def Representable (y : ℝ) : Prop :=
  ∃ m e : ℤ, |m| < 2 ^ 53 ∧ -1074 ≤ e ∧ e ≤ 971 ∧ y = m * 2 ^ e

theorem representable_zero : Representable 0 :=
  ⟨0, 0, by norm_num, by norm_num, by norm_num, by simp⟩

theorem representable_two_zpow {e : ℤ} (hle : -1074 ≤ e) (hge : e ≤ 971) :
    Representable (2 ^ e) :=
  ⟨1, e, by norm_num, hle, hge, by simp⟩

theorem Representable.neg {y : ℝ} (h : Representable y) : Representable (-y) := by
  obtain ⟨m, e, hm, hle, hge, rfl⟩ := h
  exact ⟨-m, e, by rwa [abs_neg], hle, hge, by push_cast; ring⟩

/-- The largest representable number. -/
theorem Representable.abs_le {y : ℝ} (h : Representable y) :
    |y| ≤ (2 ^ 53 - 1) * 2 ^ (971 : ℤ) := by
  obtain ⟨m, e, hm, -, hge, rfl⟩ := h
  have hmreal : |(m : ℝ)| ≤ 2 ^ 53 - 1 := by
    have hint : |m| ≤ 2 ^ 53 - 1 := by omega
    exact_mod_cast hint
  rw [abs_mul, abs_of_pos (by positivity : (0 : ℝ) < 2 ^ e)]
  gcongr
  norm_num

/-- The least positive representable number. -/
theorem Representable.eq_zero {y : ℝ} (h : Representable y) (hlt : |y| < 2 ^ (-1074 : ℤ)) :
    y = 0 := by
  obtain ⟨m, e, -, hle, -, rfl⟩ := h
  rw [abs_mul, abs_of_pos (by positivity : (0 : ℝ) < 2 ^ e)] at hlt
  have hstep : (2 : ℝ) ^ (-1074 : ℤ) ≤ 2 ^ e := zpow_le_zpow_right₀ (by norm_num) hle
  have hreal : |(m : ℝ)| < 1 := by
    by_contra hone
    have hmul := mul_le_mul_of_nonneg_right (not_lt.mp hone) (by positivity : (0 : ℝ) ≤ 2 ^ e)
    linarith
  have hint : |m| < 1 := by exact_mod_cast hreal
  rw [Int.abs_lt_one_iff.mp hint, Int.cast_zero, zero_mul]

theorem representable_value (x : Float) : Representable (value x) := by
  by_cases hx : x.isFinite
  · rcases finite_cases hx with ⟨s, -, hv⟩ | ⟨s, m, e, hc, -, hv⟩
    · rw [hv]
      exact representable_zero
    · have hm : Representable (m * 2 ^ e) :=
        ⟨m, e, by rw [Nat.abs_cast]; exact_mod_cast hc.lt, hc.le_exponent, hc.exponent_le, by simp⟩
      rw [hv]
      cases s with
      | negative => exact hm.neg
      | positive => exact hm
  · rw [value_eq_zero (by simpa using hx)]
    exact representable_zero

/-! ## Mantissas that were cut off -/

/-- What a mantissa and its residual bits tell about a number. -/
def Tells : ExtendedMantissa → ℝ → Prop
  | ⟨m, false, false⟩, x => x = m
  | ⟨m, false, true⟩, x => m < x ∧ x < m + 1 / 2
  | ⟨m, true, false⟩, x => x = m + 1 / 2
  | ⟨m, true, true⟩, x => m + 1 / 2 < x ∧ x < m + 1

end RideHud.Binary64
