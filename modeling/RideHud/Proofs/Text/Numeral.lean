import RideHud.Proofs.Binary64.Decimal
import RideHud.Text.Document

/-!
# Numbers that can be written

No written number is read as infinity in JSON: the digits that count fit 64 bits, and a number that
grows too large when it is scaled is refused (`Numeral.isInf_of_toFloat?`).
-/

namespace RideHud

open Binary64

namespace Json.Numeral

/-- The digits that are taken fit 64 bits. -/
theorem takeDigits_lt (cs : List Char) {n : ℕ} (hn : n < UInt64.size) :
    (takeDigits n cs).1 < UInt64.size := by
  induction cs generalizing n with
  | nil => exact hn
  | cons c cs ih =>
      simp only [takeDigits]
      split
      · next hnext => exact ih hnext
      · exact hn

/-- A number does not become less by more digits. -/
theorem le_ofDigitChars (cs : List Char) (n : ℕ) : n ≤ Nat.ofDigitChars 10 cs n := by
  rw [Nat.ofDigitChars_eq_ofDigitChars_zero]
  exact (Nat.le_mul_of_pos_left n (Nat.pow_pos (by decide))).trans (Nat.le_add_right _ _)

/-- Digits that make a number of 64 bits are all taken. -/
theorem takeDigits_of_lt {cs : List Char} {n : ℕ} (h : Nat.ofDigitChars 10 cs n < UInt64.size) :
    takeDigits n cs = (Nat.ofDigitChars 10 cs n, []) := by
  induction cs generalizing n with
  | nil => rfl
  | cons c cs ih =>
      rw [Nat.ofDigitChars_cons, mul_comm] at h ⊢
      have hnext : n * 10 + (c.toNat - 48) < UInt64.size := (le_ofDigitChars cs _).trans_lt h
      rw [takeDigits]
      simp only [if_pos hnext]
      exact ih h

/-- The powers of ten that numbers are scaled by are finite and at least one. -/
theorem power_spec {k : ℕ} (hk : k ≤ 308) :
    (Float.ofScientific 1 false k).isFinite ∧ 1 ≤ value (Float.ofScientific 1 false k) := by
  have hrounds := ofScientific_rounds 1 false k
  rw [if_neg Bool.false_ne_true, Nat.cast_one, one_mul, zpow_natCast] at hrounds
  have hfinite : (Float.ofScientific 1 false k).isFinite := by
    rcases lt_or_eq_of_le hk with hlt | rfl
    · refine hrounds.finite ?_
      rw [abs_of_pos (by positivity)]
      calc (10 : ℝ) ^ k ≤ 10 ^ (31 * 9 + 28) := pow_le_pow_right₀ (by norm_num) (by omega)
        _ = (10 ^ 31) ^ 9 * 10 ^ 28 := by rw [pow_add, pow_mul]
        _ < (2 ^ (103 : ℤ)) ^ 9 * 2 ^ (94 : ℤ) := by
            gcongr <;> norm_num
        _ = 2 ^ (1021 : ℤ) := by
            rw [← zpow_natCast, ← zpow_mul, ← zpow_add₀ (by norm_num)]
            norm_num
        _ ≤ 2 ^ (1023 : ℤ) := zpow_le_zpow_right₀ (by norm_num) (by norm_num)
    · decide +kernel
  refine ⟨hfinite, (hrounds.nearest hfinite).le_of_le ?_ (one_le_pow₀ (by norm_num))⟩
  simpa using representable_natCast (n := 1) (by norm_num)

/-- A quotient by a number that is at least one is not larger. -/
theorem div_spec {x p : Float} (hx : x.isFinite) (hsize : |value x| ≤ 2 ^ (64 : ℤ))
    (hp : p.isFinite) (hone : 1 ≤ value p) :
    (x / p).isFinite ∧ |value (x / p)| ≤ 2 ^ (64 : ℤ) := by
  have hrounds := div_rounds hx hp (by linarith)
  have hquotient : |value x / value p| ≤ 2 ^ (64 : ℤ) := by
    rw [abs_div, abs_of_pos (by linarith : 0 < value p)]
    exact (div_le_self (abs_nonneg _) hone).trans hsize
  have hfinite := hrounds.finite
    (hquotient.trans_lt (zpow_lt_zpow_right₀ (by norm_num) (by norm_num)))
  have hword := representable_two_zpow (show -1074 ≤ (64 : ℤ) by norm_num) (by norm_num)
  exact ⟨hfinite, (hrounds.nearest hfinite).abs_le_of_abs_le hword hquotient⟩

/-- A number that is scaled is finite. -/
theorem isFinite_of_scaled? {m : ℕ} (hm : m < UInt64.size) {e : ℤ} {x : Float}
    (h : scaled? m e = some x) : x.isFinite := by
  obtain ⟨hfinite, hsize⟩ := ofNat_word_spec hm
  simp only [scaled?] at h
  split at h
  · split at h
    · obtain rfl := Option.some.inj h
      exact isFinite_zero
    split at h
    · cases h
    split at h
    · cases h
    · next hle hinf =>
        obtain rfl := Option.some.inj h
        obtain ⟨hpower, -⟩ := power_spec (k := e.toNat) (by omega)
        exact isFinite_of_not_isInf (by simpa using hinf) (mul_rounds hfinite hpower).not_isNaN
  · split at h
    · obtain rfl := Option.some.inj h
      obtain ⟨hpower, hone⟩ := power_spec (k := (-e).toNat) (by omega)
      exact (div_spec hfinite hsize hpower hone).1
    split at h
    · obtain rfl := Option.some.inj h
      obtain ⟨hpower, hone⟩ := power_spec (k := 308) le_rfl
      obtain ⟨hfinite, hsize⟩ := div_spec hfinite hsize hpower hone
      obtain ⟨hpower, hone⟩ := power_spec (k := (-e - 308).toNat) (by omega)
      exact (div_spec hfinite hsize hpower hone).1
    · obtain rfl := Option.some.inj h
      exact isFinite_zero

/-- **Written numbers.** A number that is read is finite. -/
theorem isFinite_of_toFloat? {n : Numeral} {x : Float} (h : n.toFloat? = some x) : x.isFinite := by
  simp only [toFloat?, Option.map_eq_some_iff] at h
  obtain ⟨y, hy, rfl⟩ := h
  have hfinite := isFinite_of_scaled? (takeDigits_lt _ (takeDigits_lt _ (by decide))) hy
  split
  · exact (neg_spec hfinite).1
  · exact hfinite

end Json.Numeral

end RideHud
