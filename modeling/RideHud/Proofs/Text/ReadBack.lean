import RideHud.Proofs.Text.Numeral
import RideHud.Proofs.Text.WrittenJson

/-!
# Numbers that JSON keeps

A number in JSON is scaled by a power of ten after its digits are read. Either may be rounded, so
not every number is read as it was written. Numbers of few digits and of moderate size are
(`toFloat?_ofFloat`): their digits fit a mantissa, and their power of ten is exact.
-/

namespace RideHud.Json

open Binary64 Decimal

namespace Numeral

/-! ## Exact numbers -/

/-- The digits of a number, without the point. -/
def mantissa (n : Numeral) : ℕ := Nat.ofDigitChars 10 (n.whole ++ n.fraction) 0

/-- The exponent of the last digit. -/
def scale (n : Numeral) : ℤ := n.exponent.getD 0 - n.fraction.length

/-- The digits fit a mantissa, and so does the power of ten. -/
structure IsShort (n : Numeral) : Prop where
  mantissa : n.mantissa < 2 ^ 53
  scale : n.scale.natAbs ≤ 22

/-- The powers of ten up to the twenty-second are exact. -/
theorem power_exact {k : ℕ} (hk : k ≤ 22) : (Float.ofScientific 1 false k).isFinite ∧
    value (Float.ofScientific 1 false k) = (10 : ℝ) ^ k := by
  have hrounds := ofScientific_rounds 1 false k
  rw [if_neg Bool.false_ne_true, Nat.cast_one, one_mul, zpow_natCast] at hrounds
  obtain ⟨hfinite, -⟩ := power_spec (hk.trans (by norm_num))
  have hfive : (5 : ℤ) ^ k < 2 ^ 53 :=
    (pow_le_pow_right₀ (by norm_num) hk).trans_lt (by norm_num)
  have hpower : Representable ((10 : ℝ) ^ k) := by
    refine ⟨5 ^ k, k, by rwa [abs_of_pos (by positivity)], by omega, by omega, ?_⟩
    rw [zpow_natCast, Int.cast_pow, ← mul_pow]
    norm_num
  exact ⟨hfinite, hrounds.value_eq hfinite hpower⟩

theorem zero_div_power : ∀ k : Fin 23, Float.ofNat 0 / Float.ofScientific 1 false k = 0 := by
  decide +kernel

/-- A number of few digits is rounded once when it is scaled. -/
theorem exists_scaled?_eq {m : ℕ} {e : ℤ} (hm : m < 2 ^ 53) (he : e.natAbs ≤ 22) :
    ∃ y, scaled? m e = some y ∧ Rounds y (m * (10 : ℝ) ^ e) ∧ (m = 0 → y = 0) := by
  obtain ⟨hfinite, hvalue⟩ := ofNat_spec hm
  have hmreal : (m : ℝ) ≤ 2 ^ 53 := by exact_mod_cast hm.le
  have hpower : (10 : ℝ) ^ e ≤ 10 ^ (22 : ℤ) := zpow_le_zpow_right₀ (by norm_num) (by omega)
  have hsize : |(m : ℝ) * 10 ^ e| < 2 ^ (1023 : ℤ) := by
    rw [abs_of_nonneg (by positivity)]
    calc (m : ℝ) * 10 ^ e ≤ 2 ^ 53 * 10 ^ (22 : ℤ) := by gcongr
      _ < 2 ^ (200 : ℤ) := by norm_num
      _ < 2 ^ (1023 : ℤ) := zpow_lt_zpow_right₀ (by norm_num) (by norm_num)
  unfold scaled?
  simp only
  by_cases hsign : 0 ≤ e
  · rw [if_pos hsign]
    split
    · next hzero =>
        have hrounds := rounds_value isFinite_zero
        rw [value_zero] at hrounds
        exact ⟨0, rfl, by rwa [hzero, Nat.cast_zero, zero_mul], fun _ => rfl⟩
    · next hzero =>
        have hexponent : (10 : ℝ) ^ e = 10 ^ e.toNat := by
          rw [← zpow_natCast, Int.toNat_of_nonneg hsign]
        obtain ⟨hten, hten'⟩ := power_exact (show e.toNat ≤ 22 by omega)
        have hrounds := mul_rounds hfinite hten
        rw [hvalue, hten', ← hexponent] at hrounds
        have hproduct := hrounds.finite hsize
        rw [if_neg (by omega), isInf_of_isFinite hproduct]
        exact ⟨_, rfl, hrounds, fun h => absurd h hzero⟩
  · have hexponent : (10 : ℝ) ^ e = (10 ^ (-e).toNat)⁻¹ := by
      rw [← zpow_natCast, Int.toNat_of_nonneg (by omega), ← zpow_neg, neg_neg]
    obtain ⟨hten, hten'⟩ := power_exact (show (-e).toNat ≤ 22 by omega)
    have hrounds := div_rounds hfinite hten (by rw [hten']; positivity)
    rw [hvalue, hten', div_eq_mul_inv, ← hexponent] at hrounds
    rw [if_neg hsign, if_pos (by omega)]
    refine ⟨_, rfl, hrounds, ?_⟩
    rintro rfl
    exact zero_div_power ⟨(-e).toNat, by omega⟩

/-- All digits of a number are taken if it has few. -/
theorem toFloat?_eq {n : Numeral} (hn : n.mantissa < 2 ^ 53) :
    n.toFloat? = (scaled? n.mantissa n.scale).map fun y => if n.negative then -y else y := by
  have happend : n.mantissa = Nat.ofDigitChars 10 n.fraction (Nat.ofDigitChars 10 n.whole 0) :=
    Nat.ofDigitChars_append 0
  have hsize : (2 : ℕ) ^ 53 < UInt64.size := by decide
  have hwhole : takeDigits 0 n.whole = (Nat.ofDigitChars 10 n.whole 0, []) := by
    refine takeDigits_of_lt (lt_of_le_of_lt ?_ (hn.trans hsize))
    exact happend ▸ le_ofDigitChars n.fraction _
  have hfraction := takeDigits_of_lt (happend ▸ hn.trans hsize)
  unfold toFloat?
  simp only [hwhole, hfraction, ← happend]
  congr 2
  simp [scale]
  ring

end Numeral

/-! ## Written numbers -/

/-- What is written for a number with digits is not whole, and has its value and its sign. -/
theorem ofFinite_spec (negative : Bool) (s : Shortest) :
    (Numeral.ofFinite negative s).isWhole = false ∧
      ((Numeral.ofFinite negative s).mantissa : ℝ) * 10 ^ (Numeral.ofFinite negative s).scale
        = s.digits * (10 : ℝ) ^ s.power ∧
      (Numeral.ofFinite negative s).negative = negative := by
  unfold Numeral.ofFinite
  split
  · obtain ⟨hne, hwrites⟩ := s.writes_parts.fraction
    refine ⟨by simpa [Numeral.isWhole] using hne, ?_, rfl⟩
    simpa [Numeral.mantissa, Numeral.scale] using hwrites.value
  · have hdigits : (Nat.toDigits 10 s.digits).length = Ratio.digitCount s.digits := rfl
    have hcount := Ratio.digitCount_pos s.digits
    refine ⟨by simp [Numeral.isWhole], ?_, rfl⟩
    simp only [Numeral.mantissa, Numeral.scale, Option.getD_some, List.length_drop, hdigits,
      List.take_append_drop, Nat.ofDigitChars_ten_toDigits, Shortest.leading]
    congr 2
    omega

/-- A finite number is written as one that reads back as the number without its sign, but for the
rounding when it is read. -/
theorem ofFloat_spec {x : Float} (hx : x.isFinite) :
    ∃ n, ofFloat x = .number n ∧ n.isWhole = false ∧
      Rounds x.abs (n.mantissa * (10 : ℝ) ^ n.scale) ∧
      x = if n.negative then -x.abs else x.abs := by
  obtain ⟨negative, m, e, hbinary, hsign, hvalue⟩ := Decimal.ofFloat_spec hx
  rcases Nat.eq_zero_or_pos m with rfl | hm
  · refine ⟨⟨negative, ['0'], ['0'], none⟩, ?_, rfl, ?_, hsign⟩
    · unfold ofFloat
      rw [hbinary]
      rfl
    · have hrounds := rounds_value (abs_spec hx).1
      rw [hvalue, Nat.cast_zero, zero_mul] at hrounds
      have hmantissa : Numeral.mantissa ⟨negative, ['0'], ['0'], none⟩ = 0 := rfl
      rwa [hmantissa, Nat.cast_zero, zero_mul]
  · obtain ⟨hwhole, hsame, hnegative⟩ :=
      ofFinite_spec negative (Shortest.of x.abs (Ratio.ofBinary m e))
    refine ⟨_, ?_, hwhole, hsame ▸ Shortest.of_ofBinary_rounds hm hvalue, by rwa [hnegative]⟩
    unfold ofFloat
    rw [hbinary]
    obtain ⟨k, rfl⟩ : ∃ k, m = k + 1 := ⟨m - 1, by omega⟩
    rfl

/-- **Short numbers.** A number that is written with few digits is read as it was written. -/
theorem toFloat?_ofFloat {x : Float} (hx : x.isFinite) {n : Numeral} (hn : ofFloat x = .number n)
    (hshort : n.IsShort) : n.toFloat? = some x := by
  obtain ⟨n', hn', -, hrounds, hsign⟩ := ofFloat_spec hx
  obtain rfl : n = n' := Json.number.inj (hn.symm.trans hn')
  obtain ⟨y, hscaled, hrounds', hzero⟩ := Numeral.exists_scaled?_eq hshort.mantissa hshort.scale
  have hsame : y = x.abs := by
    by_cases hm : n.mantissa = 0
    · rw [hm, Nat.cast_zero, zero_mul] at hrounds
      have hvalue := hrounds.value_eq (abs_spec hx).1 representable_zero
      rw [hzero hm, abs_eq_zero hx hvalue]
    · have hpos : (0 : ℝ) < n.mantissa := by exact_mod_cast Nat.pos_of_ne_zero hm
      exact hrounds'.unique hrounds (by positivity)
  rw [Numeral.toFloat?_eq hshort.mantissa, hscaled, Option.map_some, hsame, ← hsign]

end RideHud.Json
