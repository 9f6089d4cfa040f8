import RideHud.Decimal
import RideHud.Proofs.Binary64.Decimal

/-!
# Numbers with the fewest digits

The digits that are written for a number read back as it, whether they were found by trying few of
them first or are the seventeen that always tell a number (`Shortest.of_rounds`). They are written
without a zero in front that is not needed (`Writes`), with a point among them (`plain_spec`).
-/

namespace RideHud

open Binary64
open Float.Model (UnpackedFloat)
open Float.Model.UnpackedFloat (Sign packComponents)

namespace Decimal

/-! ## Exact values -/

/-- Whether a sign is a minus. -/
def isMinus : Sign → Bool
  | .negative => true
  | .positive => false

/-- The bits of a number are those of its sign, its exponent and its mantissa. -/
theorem toNat_packComponents (s : Sign) (e : BitVec 11) (m : BitVec 52) :
    (packComponents .binary64 s e m).toNat
      = (if isMinus s then 2 ^ 63 else 0) + e.toNat * 2 ^ 52 + m.toNat := by
  have happend {v w : ℕ} (a : BitVec v) (b : BitVec w) :
      (a ++ b).toNat = a.toNat * 2 ^ w + b.toNat := by
    rw [BitVec.toNat_append, ← Nat.shiftLeft_add_eq_or_of_lt b.isLt, Nat.shiftLeft_eq]
  show (s.toBitVec ++ e ++ m).toNat = _
  rw [happend, happend]
  cases s with
  | negative =>
      show (1 * 2 ^ 11 + e.toNat) * 2 ^ 52 + m.toNat = _
      rw [isMinus, if_pos rfl]
      omega
  | positive =>
      show (0 * 2 ^ 11 + e.toNat) * 2 ^ 52 + m.toNat = _
      rw [isMinus, if_neg Bool.false_ne_true]
      omega

/-- Bits that are taken apart. -/
theorem ofFloat_of_bits {x : Float} {s : Sign} {e : BitVec 11} {m : BitVec 52}
    (h : UnpackedFloat.pack .binary64 x.toModel.unpack = packComponents .binary64 s e m) :
    Binary.ofFloat x = if e.toNat = 2047 then
        if m.toNat = 0 then .infinite (isMinus s) else .nan
      else if e.toNat = 0 then .finite (isMinus s) m.toNat (-1074)
      else .finite (isMinus s) (2 ^ 52 + m.toNat) ((e.toNat : ℤ) - 1075) := by
  have hbits : x.toBits.toNat = (packComponents .binary64 s e m).toNat := by
    rw [← h]
    conv_lhs => rw [Float.toBits, ← (unpack_spec x.toModel).1]
    rfl
  have hm := m.isLt
  have he := e.isLt
  rw [toNat_packComponents] at hbits
  have hsign : decide (x.toBits.toNat / 2 ^ 63 = 1) = isMinus s := by
    cases s with
    | negative =>
        rw [isMinus, if_pos rfl] at hbits
        rw [isMinus, decide_eq_true_eq]
        omega
    | positive =>
        rw [isMinus, if_neg Bool.false_ne_true] at hbits
        rw [isMinus, decide_eq_false_iff_not]
        omega
  have hexponent : x.toBits.toNat / 2 ^ 52 % 2 ^ 11 = e.toNat := by
    split at hbits <;> omega
  have hfraction : x.toBits.toNat % 2 ^ 52 = m.toNat := by
    split at hbits <;> omega
  unfold Binary.ofFloat
  simp only [Nat.pow_eq, hsign, hexponent, hfraction]

/-- What is stored in a zero. -/
theorem ofFloat_of_zero {x : Float} {s : Sign} (h : x.toModel.unpack = .zero s) :
    Binary.ofFloat x = .finite (isMinus s) 0 (-1074) := by
  rw [ofFloat_of_bits (s := s) (e := 0#11) (m := 0#52) (by rw [h]; rfl)]
  exact if_neg (by decide)

/-- What is stored in a number that is finite and not zero. -/
theorem ofFloat_of_finite {x : Float} {s : Sign} {m : ℕ} {e : ℤ} (hc : Canonical m e)
    (h : x.toModel.unpack = .finite s m e hc.pos) :
    Binary.ofFloat x = .finite (isMinus s) m e := by
  have hlt := hc.lt
  have hle := hc.exponent_le
  have hge := hc.le_exponent
  by_cases hfull : 2 ^ 52 ≤ m
  · rw [ofFloat_of_bits (s := s) (e := BitVec.ofNat 11 (e + 1075).toNat)
      (m := BitVec.ofNat 52 m) (by rw [h, pack_normal s hc hfull])]
    have he : (BitVec.ofNat 11 (e + 1075).toNat).toNat = (e + 1075).toNat := by
      rw [BitVec.toNat_ofNat]
      omega
    have hm : (BitVec.ofNat 52 m).toNat = m - 2 ^ 52 := by
      rw [BitVec.toNat_ofNat]
      omega
    have hmantissa : 2 ^ 52 + (m - 2 ^ 52) = m := by omega
    have hexponent : (((e + 1075).toNat : ℕ) : ℤ) - 1075 = e := by omega
    rw [he, hm, if_neg (by omega), if_neg (by omega), hmantissa, hexponent]
  · obtain rfl : e = -1074 := hc.full.resolve_left hfull
    rw [ofFloat_of_bits (s := s) (e := 0#11) (m := BitVec.ofNat 52 m)
      (by rw [h, pack_subnormal s hc.pos (by omega)])]
    have hm : (BitVec.ofNat 52 m).toNat = m := by
      rw [BitVec.toNat_ofNat]
      omega
    rw [hm]
    exact if_neg (by decide)

/-- What is stored in a finite number. -/
theorem ofFloat_spec {x : Float} (hx : x.isFinite) :
    ∃ negative m e, Binary.ofFloat x = .finite negative m e ∧
      x = (if negative then -x.abs else x.abs) ∧ value x.abs = m * 2 ^ e := by
  obtain ⟨habs, hvalue⟩ := abs_spec hx
  have hsign (s : Sign) (h : x.toModel.unpack = if isMinus s then x.toModel.unpack.abs.neg
      else x.toModel.unpack.abs) : x = if isMinus s then -x.abs else x.abs := by
    refine eq_of_unpack_eq (h.trans ?_)
    rw [apply_ite Float.toModel, apply_ite Float.Model.unpack, neg_unpack habs, abs_unpack hx]
  rcases finite_cases hx with ⟨s, hu, hv⟩ | ⟨s, m, e, hc, hu, hv⟩
  · refine ⟨isMinus s, 0, -1074, ofFloat_of_zero hu, hsign s ?_, ?_⟩
    · rw [hu]
      cases s <;> rfl
    · rw [hvalue, hv, abs_zero, Nat.cast_zero, zero_mul]
  · refine ⟨isMinus s, m, e, ofFloat_of_finite hc hu, hsign s ?_, ?_⟩
    · rw [hu]
      cases s <;> rfl
    · rw [hvalue, hv, abs_signed, abs_of_pos hc.value_pos]

/-! ## Quotients -/

namespace Ratio

theorem den_ofBinary_pos (m : ℕ) (e : ℤ) : 0 < (ofBinary m e).den := Nat.two_pow_pos _

theorem den_shift_pos {r : Ratio} (hr : 0 < r.den) (p : ℤ) : 0 < (r.shift p).den :=
  Nat.mul_pos hr (Nat.pow_pos (by decide))

theorem ofBinary_value (m : ℕ) (e : ℤ) :
    ((ofBinary m e).num : ℝ) / (ofBinary m e).den = m * 2 ^ e := by
  have hexponent : e = (e.toNat : ℤ) - ((-e).toNat : ℤ) := by omega
  nth_rewrite 3 [hexponent]
  rw [zpow_sub₀ (by norm_num), zpow_natCast, zpow_natCast]
  simp only [ofBinary, Nat.pow_eq]
  push_cast
  ring

theorem shift_value (r : Ratio) (p : ℤ) :
    ((r.shift p).num : ℝ) / (r.shift p).den = r.num / r.den * (10 : ℝ) ^ p := by
  have hexponent : p = (p.toNat : ℤ) - ((-p).toNat : ℤ) := by omega
  nth_rewrite 3 [hexponent]
  rw [zpow_sub₀ (by norm_num), zpow_natCast, zpow_natCast]
  simp only [shift, Nat.pow_eq]
  push_cast
  ring

/-- The nearest whole number is half a unit away at most. -/
theorem round_error {r : Ratio} (hr : 0 < r.den) : |(r.round : ℝ) - r.num / r.den| ≤ 1 / 2 := by
  have hden : (0 : ℝ) < r.den := by exact_mod_cast hr
  have hlt : ((r.num % r.den : ℕ) : ℝ) < r.den := by exact_mod_cast Nat.mod_lt _ hr
  have hsplit : (r.num : ℝ) / r.den = (r.num / r.den : ℕ) + (r.num % r.den : ℕ) / r.den := by
    have hnat : (r.num : ℝ) = r.den * (r.num / r.den : ℕ) + (r.num % r.den : ℕ) := by
      exact_mod_cast (Nat.div_add_mod r.num r.den).symm
    nth_rewrite 1 [hnat]
    rw [add_div, mul_div_cancel_left₀ _ hden.ne']
  rw [hsplit]
  unfold round
  simp only
  generalize r.num / r.den = w
  generalize r.num % r.den = f at *
  have hnonneg : (0 : ℝ) ≤ f / r.den := by positivity
  have hone : (f : ℝ) / r.den < 1 := (div_lt_one hden).mpr hlt
  split
  · next hless =>
      have htwice : (2 : ℝ) * f < r.den := by exact_mod_cast hless
      have hhalf : (f : ℝ) / r.den < 1 / 2 := by
        rw [div_lt_iff₀ hden]
        linarith
      rw [abs_le]
      constructor <;> linarith
  split
  · next hmore =>
      have htwice : (r.den : ℝ) < 2 * f := by exact_mod_cast hmore
      have hhalf : 1 / 2 < (f : ℝ) / r.den := by
        rw [lt_div_iff₀ hden]
        linarith
      push_cast
      rw [abs_le]
      constructor <;> linarith
  · next hless hmore =>
      have htwice : (2 : ℝ) * f = r.den := by exact_mod_cast (by omega : 2 * f = r.den)
      have hhalf : (f : ℝ) / r.den = 1 / 2 := by
        rw [div_eq_iff hden.ne']
        linarith
      rw [hhalf]
      rcases Nat.mod_two_eq_zero_or_one w with heven | hodd
      · rw [heven, add_zero, abs_le]
        constructor <;> linarith
      · rw [hodd, Nat.cast_add, Nat.cast_one, abs_le]
        constructor <;> linarith

theorem digitCount_pos (n : ℕ) : 0 < digitCount n := Nat.length_toDigits_pos

theorem lt_pow_digitCount (n : ℕ) : n < 10 ^ digitCount n :=
  (Nat.length_toDigits_le_iff (by decide) (digitCount_pos n)).mp le_rfl

theorem pow_digitCount_le {n : ℕ} (hn : 0 < n) : 10 ^ (digitCount n - 1) ≤ n := by
  by_contra hlt
  rcases Nat.eq_zero_or_pos (digitCount n - 1) with hzero | hpos
  · rw [hzero] at hlt
    omega
  · have hle := (Nat.length_toDigits_le_iff (by decide) hpos).mpr (not_le.mp hlt)
    change digitCount n ≤ _ at hle
    omega

/-- The leading digit of a positive quotient stands no further in front than this. -/
theorem pow_leading_le {r : Ratio} (hnum : 0 < r.num) (hden : 0 < r.den) :
    (10 : ℝ) ^ r.leading ≤ r.num / r.den := by
  have hreal : (0 : ℝ) < r.den := by exact_mod_cast hden
  rw [le_div_iff₀ hreal]
  unfold leading
  split
  · next hle =>
      have hpow := pow_digitCount_le (Nat.div_pos hle hden)
      have hpos := digitCount_pos (r.num / r.den)
      have hexponent : (digitCount (r.num / r.den) : ℤ) - 1
          = ((digitCount (r.num / r.den) - 1 : ℕ) : ℤ) := by omega
      rw [hexponent, zpow_natCast]
      exact_mod_cast (Nat.mul_le_mul_right _ hpow).trans (Nat.div_mul_le_self _ _)
  · have hlt := lt_pow_digitCount ((r.den - 1) / r.num)
    rw [Nat.div_lt_iff_lt_mul hnum] at hlt
    have hle : r.den ≤ 10 ^ digitCount ((r.den - 1) / r.num) * r.num := by omega
    rw [zpow_neg, zpow_natCast, inv_mul_le_iff₀ (by positivity)]
    exact_mod_cast hle

end Ratio

/-! ## Fewest digits -/

namespace Shortest

/-- A decimal number is read as the nearest binary one. -/
theorem toFloat_rounds (s : Shortest) : Rounds s.toFloat (s.digits * (10 : ℝ) ^ s.power) := by
  unfold toFloat
  split
  · next hpower =>
      have hrounds := ofScientific_rounds s.digits false s.power.toNat
      rw [if_neg Bool.false_ne_true, Int.toNat_of_nonneg hpower] at hrounds
      exact hrounds
  · next hpower =>
      have hrounds := ofScientific_rounds s.digits true (-s.power).toNat
      rw [if_pos rfl, Int.toNat_of_nonneg (by omega), neg_neg] at hrounds
      exact hrounds

/-- Zeros at the end do not count. -/
theorem trimmed_value (fuel : ℕ) (s : Shortest) :
    ((trimmed fuel s).digits : ℝ) * (10 : ℝ) ^ (trimmed fuel s).power
      = s.digits * (10 : ℝ) ^ s.power := by
  induction fuel generalizing s with
  | zero => rfl
  | succ fuel ih =>
      unfold trimmed
      split
      · next hzero =>
          have hdigits : (s.digits : ℝ) = (s.digits / 10 : ℕ) * 10 := by
            exact_mod_cast (Nat.div_mul_cancel (Nat.dvd_of_mod_eq_zero hzero.2)).symm
          rw [ih, zpow_add₀ (by norm_num), hdigits, zpow_one]
          ring
      · rfl

/-- Seventeen digits tell a number. -/
theorem close_of_seventeen_digits {r : Ratio} (hnum : 0 < r.num) (hden : 0 < r.den) :
    |(r.num : ℝ) / r.den - (r.shift (17 - 1 - r.leading)).round * (10 : ℝ) ^ (r.leading - 16)|
      < 2 ^ (-54 : ℤ) * |(r.num : ℝ) / r.den| := by
  have hlow := Ratio.pow_leading_le hnum hden
  have hround := Ratio.round_error (Ratio.den_shift_pos hden (17 - 1 - r.leading))
  rw [Ratio.shift_value] at hround
  generalize (r.shift (17 - 1 - r.leading)).round = n at *
  generalize r.leading = k at *
  have hstep : (0 : ℝ) < 10 ^ (k - 16) := by positivity
  have hunit : (10 : ℝ) ^ k = 10 ^ 16 * 10 ^ (k - 16) := by
    rw [← zpow_natCast, ← zpow_add₀ (by norm_num)]
    congr 1
    omega
  have hscale : (10 : ℝ) ^ (17 - 1 - k) * 10 ^ (k - 16) = 1 := by
    rw [← zpow_add₀ (by norm_num)]
    norm_num
  have hpos : (0 : ℝ) < r.num / r.den := lt_of_lt_of_le (by positivity) hlow
  generalize (r.num : ℝ) / r.den = y at *
  generalize (10 : ℝ) ^ (17 - 1 - k) = scale at *
  rw [hunit] at hlow
  generalize (10 : ℝ) ^ (k - 16) = step at *
  have hdistance : |y - n * step| = |(n : ℝ) - y * scale| * step := by
    rw [← abs_of_pos hstep, ← abs_mul, abs_of_pos hstep, abs_sub_comm, sub_mul, mul_assoc y,
      hscale, mul_one]
  rw [abs_of_pos hpos]
  calc |y - n * step| = |(n : ℝ) - y * scale| * step := hdistance
    _ ≤ 1 / 2 * step := by gcongr
    _ < 2 ^ (-54 : ℤ) * (10 ^ 16 * step) := by
        rw [← mul_assoc]
        gcongr
        norm_num
    _ ≤ 2 ^ (-54 : ℤ) * y := by gcongr

/-- **Fewest digits.** The digits that are written for a positive number read back as it. -/
theorem of_rounds {x : Float} (hx : 0 < value x) {r : Ratio} (hnum : 0 < r.num) (hden : 0 < r.den)
    (hvalue : value x = r.num / r.den) :
    Rounds x ((of x r).digits * (10 : ℝ) ^ (of x r).power) := by
  unfold of
  simp only
  rw [trimmed_value]
  generalize (List.range 17).flatMap (fun n => neighbours (n + 1) r) = candidates
  cases hfind : candidates.find? fun s => s.toFloat == x with
  | some s =>
      have hsame : (s.toFloat == x) = true := by simpa using List.find?_some hfind
      have hx' : x.isFinite := by
        by_contra hinf
        rw [value_eq_zero (by simpa using hinf)] at hx
        exact lt_irrefl 0 hx
      have heq := ((beq_iff (isFinite_of_beq hsame hx') hx').mp hsame).symm
      rw [Option.getD_some, eq_of_value_eq heq hx.ne']
      exact toFloat_rounds s
  | none =>
      rw [Option.getD_none]
      have hrounds := toFloat_rounds ⟨(r.shift (17 - 1 - r.leading)).round, r.leading - 16⟩
      have hclose := close_of_seventeen_digits hnum hden
      rw [← hvalue] at hclose
      have heq := hrounds.eq_of_close hclose
      rwa [heq] at hrounds

/-- The digits that are written for what is stored in a positive number. -/
theorem of_ofBinary_rounds {x : Float} {m : ℕ} {e : ℤ} (hm : 0 < m) (hvalue : value x = m * 2 ^ e) :
    Rounds x ((of x (Ratio.ofBinary m e)).digits
      * (10 : ℝ) ^ (of x (Ratio.ofBinary m e)).power) := by
  have hreal : (0 : ℝ) < m := by exact_mod_cast hm
  refine of_rounds (by rw [hvalue]; positivity) (Nat.mul_pos hm (Nat.two_pow_pos _))
    (Ratio.den_ofBinary_pos m e) ?_
  rw [hvalue, Ratio.ofBinary_value]

end Shortest

/-! ## Digits -/

theorem isDigit_iff (c : Char) : c.isDigit ↔ 48 ≤ c.toNat ∧ c.toNat ≤ 57 := by
  simp only [Char.isDigit, Bool.and_eq_true, decide_eq_true_eq, ge_iff_le,
    UInt32.le_iff_toNat_le]
  rfl

theorem ne_of_isDigit {c d : Char} (hc : c.isDigit) (hd : d.isDigit = false) : c ≠ d := by
  rintro rfl
  rw [hc] at hd
  cases hd

/-- A whole number does not start with a zero that is not needed. -/
theorem head?_toDigits {n : ℕ} (hn : 0 < n) : (Nat.toDigits 10 n).head? ≠ some '0' := by
  induction n using Nat.strong_induction_on with
  | _ n ih =>
      by_cases hsmall : n < 10
      · rw [Nat.toDigits_of_lt_base hsmall]
        interval_cases n <;> decide
      · rw [Nat.toDigits_of_base_le (by decide) (not_lt.mp hsmall),
          List.head?_append_of_ne_nil _ Nat.toDigits_ne_nil]
        exact ih (n / 10) (by omega) (by omega)

theorem isDigit_toDigits (n : ℕ) : ∀ c ∈ Nat.toDigits 10 n, c.isDigit :=
  fun _ hc => Nat.isDigit_of_mem_toDigits (by decide) (by decide) hc

/-- The first digit of a whole number. -/
theorem exists_toDigits_eq_cons (n : ℕ) : ∃ c cs, Nat.toDigits 10 n = c :: cs ∧ c.isDigit := by
  obtain ⟨c, cs, heq⟩ := List.exists_cons_of_ne_nil (Nat.toDigits_ne_nil (n := n) (b := 10))
  exact ⟨c, cs, heq, isDigit_toDigits n c (heq ▸ List.mem_cons_self)⟩

/-- Digits before and after a point make a number, and do not start with a zero that is not
needed. -/
structure Writes (before after : List Char) (y : ℝ) : Prop where
  whole : ∃ n, before = Nat.toDigits 10 n
  isDigit : ∀ c ∈ after, c.isDigit
  value : (Nat.ofDigitChars 10 (before ++ after) 0 : ℝ) * (10 : ℝ) ^ (-(after.length : ℤ)) = y

theorem writes_toDigits (n : ℕ) : Writes (Nat.toDigits 10 n) [] n :=
  ⟨⟨n, rfl⟩, by simp, by simp⟩

/-- A whole number may have a zero after the point. -/
theorem Writes.zero {before : List Char} {y : ℝ} (h : Writes before [] y) :
    Writes before ['0'] y := by
  refine ⟨h.whole, List.forall_mem_singleton.mpr rfl, ?_⟩
  rw [← h.value, List.append_nil, Nat.ofDigitChars_append, Nat.ofDigitChars_cons,
    Nat.ofDigitChars_nil]
  push_cast
  norm_num
  ring

theorem toList_pushn (s : String) (c : Char) (n : ℕ) :
    (s.pushn c n).toList = s.toList ++ List.replicate n c := by
  rw [String.pushn_eq_repeat_push]
  induction n with
  | zero => simp [Nat.repeat]
  | succ n ih =>
      rw [Nat.repeat, String.toList_push, ih, List.append_assoc, List.replicate_succ']

theorem toList_padded (width n : ℕ) :
    (padded width n).toList
      = List.replicate (width - (Nat.toDigits 10 n).length) '0' ++ Nat.toDigits 10 n := by
  unfold padded
  simp only
  rw [String.toList_append, toList_pushn, Nat.toString_eq_ofList_toDigits, String.toList_ofList,
    List.nil_append, ← String.length_toList, String.toList_ofList]

/-- The digits of a number of any size. -/
theorem Shortest.writes_parts (s : Shortest) :
    Writes s.parts.1.toList s.parts.2.toList (s.digits * (10 : ℝ) ^ s.power) := by
  unfold parts
  split
  · next hpower =>
      refine ⟨⟨_, by rw [Nat.toString_eq_ofList_toDigits, String.toList_ofList]⟩, ?_, ?_⟩
      · rw [String.toList_empty]
        exact nofun
      · have hexponent : (10 : ℝ) ^ s.power = 10 ^ s.power.toNat := by
          rw [← zpow_natCast, Int.toNat_of_nonneg hpower]
        rw [Nat.toString_eq_ofList_toDigits, String.toList_ofList, String.toList_empty,
          List.append_nil, Nat.ofDigitChars_ten_toDigits, List.length_nil, Nat.pow_eq, hexponent]
        push_cast
        rw [neg_zero, zpow_zero, mul_one]
  · next hpower =>
      obtain ⟨places, hplaces, hpos⟩ : ∃ places : ℕ, s.power = -places ∧ 0 < places :=
        ⟨(-s.power).toNat, by omega, by omega⟩
      have hnat : (-s.power).toNat = places := by omega
      simp only [hnat]
      have hshort : (Nat.toDigits 10 (s.digits % Nat.pow 10 places)).length ≤ places :=
        (Nat.length_toDigits_le_iff (by decide) hpos).mpr (Nat.mod_lt _ (Nat.pow_pos (by decide)))
      have hlength : (padded places (s.digits % Nat.pow 10 places)).toList.length = places := by
        rw [toList_padded, List.length_append, List.length_replicate]
        omega
      refine ⟨⟨_, by rw [Nat.toString_eq_ofList_toDigits, String.toList_ofList]⟩, ?_, ?_⟩
      · intro c hc
        rw [toList_padded, List.mem_append] at hc
        rcases hc with hc | hc
        · rw [List.eq_of_mem_replicate hc]
          decide
        · exact Nat.isDigit_of_mem_toDigits (by decide) (by decide) hc
      · rw [hlength, hplaces, Nat.toString_eq_ofList_toDigits, String.toList_ofList,
          Nat.ofDigitChars_append, Nat.ofDigitChars_ten_toDigits,
          Nat.ofDigitChars_eq_ofDigitChars_zero, hlength, toList_padded, Nat.ofDigitChars_append,
          Nat.ofDigitChars_replicate_zero, mul_zero, Nat.ofDigitChars_ten_toDigits]
        exact congrArg (fun n : ℕ => (n : ℝ) * _) (Nat.div_add_mod _ _)

/-- Digits after the point, of which there is one at least. -/
theorem Writes.fraction {before : List Char} {after : String} {y : ℝ}
    (h : Writes before after.toList y) :
    (if after.isEmpty then ['0'] else after.toList) ≠ [] ∧
      Writes before (if after.isEmpty then ['0'] else after.toList) y := by
  split
  · next hempty =>
      rw [String.isEmpty_iff.mp hempty] at h
      exact ⟨List.cons_ne_nil _ _, h.zero⟩
  · next hempty =>
      exact ⟨fun hnil => hempty (String.isEmpty_iff.mpr (String.toList_eq_nil_iff.mp hnil)), h⟩

/-- **Plain numbers.** A finite number is written with digits before and after a point that read
back as the number without its sign. -/
theorem plain_spec {x : Float} (hx : x.isFinite) :
    ∃ negative before after y, (plain ".0" x).toList
        = (signText negative).toList ++ (before ++ '.' :: after) ∧
      after ≠ [] ∧ Writes before after y ∧ Rounds x.abs y ∧
      x = if negative then -x.abs else x.abs := by
  obtain ⟨negative, m, e, hbinary, hsign, hvalue⟩ := ofFloat_spec hx
  rcases Nat.eq_zero_or_pos m with rfl | hm
  · refine ⟨negative, ['0'], ['0'], (0 : ℕ), ?_, List.cons_ne_nil _ _, (writes_toDigits 0).zero, ?_,
      hsign⟩
    · unfold plain
      rw [hbinary]
      simp only [String.toList_append, List.append_assoc]
      rfl
    · have hrounds := rounds_value (abs_spec hx).1
      rwa [hvalue, Nat.cast_zero, zero_mul, ← Nat.cast_zero] at hrounds
  · have hrounds := Shortest.of_ofBinary_rounds hm hvalue
    obtain ⟨hne, hwrites⟩ :=
      (Shortest.writes_parts (Shortest.of x.abs (Ratio.ofBinary m e))).fraction
    refine ⟨negative, _, _, _, ?_, hne, hwrites, hrounds, hsign⟩
    unfold plain
    rw [hbinary]
    obtain ⟨k, rfl⟩ : ∃ k, m = k + 1 := ⟨m - 1, by omega⟩
    simp only [String.toList_append, List.append_assoc]
    split
    · rfl
    · rw [String.toList_append]
      rfl

end Decimal

end RideHud
