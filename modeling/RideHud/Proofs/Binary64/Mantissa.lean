import RideHud.Proofs.Binary64.Rounding

/-!
# Rounding of mantissas

A number is rounded in steps: its mantissa is shifted to the grid of its size, where two bits tell
where the number lies between two steps of the grid; then the next step is taken, and of two the
even one; at last a mantissa that has become too long is shifted once more. What comes out depends
on the value of the number only (`roundWithAccuracy_eq`, `Grounded.unique`).
-/

namespace RideHud.Binary64

open Float.Model (UnpackedFloat Format totalExponent)
open Float.Model.UnpackedFloat

/-! ## Residual bits -/

/-- The whole number that a number is rounded to. -/
structure RoundsTo (x : ℝ) (r : ℕ) : Prop where
  next : |(r : ℤ) - x| ≤ 1 / 2
  even : |(r : ℤ) - x| = 1 / 2 → Even r

namespace Tells

variable {em : ExtendedMantissa} {x : ℝ}

theorem le (h : Tells em x) : em.mantissa ≤ x := by
  rcases em with ⟨m, _ | _, _ | _⟩ <;> simp only [Tells] at h <;> linarith

theorem lt (h : Tells em x) : x < em.mantissa + 1 := by
  rcases em with ⟨m, _ | _, _ | _⟩ <;> simp only [Tells] at h <;> linarith

/-- A shift by one bit halves the number. -/
theorem shiftRightOne (h : Tells em x) : Tells em.shiftRightOne (x / 2) := by
  rcases em with ⟨m, round, sticky⟩
  have hsplit : (m : ℝ) = 2 * (m / 2 : ℕ) + (m % 2 : ℕ) := by
    exact_mod_cast (Nat.div_add_mod m 2).symm
  rcases Nat.mod_two_eq_zero_or_one m with hmod | hmod <;>
    rw [hmod] at hsplit <;>
    rcases round with _ | _ <;> rcases sticky with _ | _ <;>
    simp [Tells, ExtendedMantissa.shiftRightOne, hmod] at h hsplit ⊢ <;>
    first | linarith | (constructor <;> linarith)

theorem shiftRight (h : Tells em x) (n : ℕ) : Tells (em >>> n) (x / 2 ^ n) := by
  change Tells (n.repeat ExtendedMantissa.shiftRightOne em) _
  induction n with
  | zero => simpa [Nat.repeat] using h
  | succ n ih =>
      rw [pow_succ, ← div_div]
      exact ih.shiftRightOne

/-- The residual bits tell which whole number is next, and whether there are two. -/
theorem roundsTo (h : Tells em x) : RoundsTo x em.roundedMantissa := by
  rcases em with ⟨m, _ | _, _ | _⟩ <;> simp only [Tells] at h
  · show RoundsTo x m
    refine ⟨?_, fun htie => ?_⟩ <;> rw [h] at * <;> norm_num at *
  · show RoundsTo x m
    have habs : |((m : ℕ) : ℤ) - x| = x - m := by
      rw [abs_sub_comm, Int.cast_natCast, abs_of_pos (by linarith)]
    exact ⟨by linarith, fun htie => by linarith⟩
  · show RoundsTo x (m + m % 2)
    refine ⟨?_, fun _ => ?_⟩
    · rcases Nat.mod_two_eq_zero_or_one m with hmod | hmod <;> rw [hmod, h] <;> push_cast
      · rw [abs_sub_comm, abs_of_nonneg] <;> linarith
      · rw [abs_of_nonneg] <;> linarith
    · rw [Nat.even_add, Nat.even_iff, Nat.even_iff, Nat.mod_mod]
  · show RoundsTo x (m + 1)
    have habs : |((m + 1 : ℕ) : ℤ) - x| = m + 1 - x := by
      push_cast
      rw [abs_of_pos (by linarith)]
    exact ⟨by linarith, fun htie => by linarith⟩

end Tells

/-- There is only one whole number to round to. -/
theorem RoundsTo.unique {x : ℝ} {r r' : ℕ} (h : RoundsTo x r) (h' : RoundsTo x r') : r = r' := by
  by_contra hne
  have hstep : (1 : ℝ) ≤ |((r : ℤ) : ℝ) - (r' : ℤ)| := by
    have hint : 1 ≤ |(r : ℤ) - r'| := Int.one_le_abs (sub_ne_zero.mpr (by exact_mod_cast hne))
    exact_mod_cast hint
  have htriangle : |((r : ℤ) : ℝ) - (r' : ℤ)| ≤ |(r : ℤ) - x| + |(r' : ℤ) - x| := by
    have hsum := abs_sub_le ((r : ℤ) : ℝ) x (r' : ℤ)
    rwa [abs_sub_comm x] at hsum
  have hnext := h.next
  have hnext' := h'.next
  -- The number lies in the middle, and of two neighbours one is odd.
  have heven := h.even (by linarith)
  have heven' := h'.even (by linarith)
  have htwo : |(r : ℤ) - r'| ≤ 1 := by
    have hreal : |((r : ℤ) : ℝ) - (r' : ℤ)| ≤ 1 := by linarith
    exact_mod_cast hreal
  obtain ⟨k, rfl⟩ := heven
  obtain ⟨k', rfl⟩ := heven'
  rw [abs_le] at htwo
  omega

/-! ## Grids -/

/-- The grid of a number is told by its size. -/
theorem OnGrid.unique {t t' : ℤ} {x x' : ℝ} (h : OnGrid t x) (h' : OnGrid t' x')
    (hvalue : x * 2 ^ t = x' * 2 ^ t') : t = t' ∧ x = x' := by
  -- A number on a grid with a full mantissa is not on a finer one.
  have hle {t t' : ℤ} {x x' : ℝ} (h : OnGrid t x) (h' : OnGrid t' x')
      (hvalue : x * 2 ^ t = x' * 2 ^ t') : t ≤ t' := by
    rcases h.full with hfull | hmin
    · by_contra hlt
      have hsize : |x| * 2 ^ t = |x'| * 2 ^ t' := by
        have habs := congrArg (fun y : ℝ => |y|) hvalue
        simp only [abs_mul] at habs
        rwa [abs_of_pos (by positivity : (0 : ℝ) < 2 ^ t),
          abs_of_pos (by positivity : (0 : ℝ) < 2 ^ t')] at habs
      have hlarge : (2 : ℝ) ^ 53 * 2 ^ t' ≤ |x| * 2 ^ t := by
        calc (2 : ℝ) ^ 53 * 2 ^ t' = 2 ^ 52 * 2 ^ (t' + 1) := by
              rw [zpow_add₀ (by norm_num)]
              ring
          _ ≤ 2 ^ 52 * 2 ^ t := by
              gcongr
              · norm_num
              · omega
          _ ≤ |x| * 2 ^ t := by gcongr
      rw [hsize] at hlarge
      exact absurd (le_of_mul_le_mul_right hlarge (by positivity)) (not_le.mpr h'.abs_lt)
    · exact hmin ▸ h'.le_exponent
  obtain rfl : t = t' := le_antisymm (hle h h' hvalue) (hle h' h hvalue.symm)
  exact ⟨rfl, mul_right_cancel₀ (by positivity) hvalue⟩

theorem targetExponent_eq (n : ℤ) :
    Format.binary64.targetExponent n = max (n - 53) (-1074) := rfl

/-- The target of a mantissa and an exponent is the grid of the numbers they tell. -/
theorem onGrid_target {m : ℕ} {e : ℤ} {x : ℝ} (hle : m ≤ x) (hlt : x < m + 1)
    (hshort : 2 ^ 52 ≤ m ∨ e ≤ -1074) {t : ℤ}
    (ht : t = Format.binary64.targetExponent (totalExponent m e)) :
    e ≤ t ∧ OnGrid t (x / 2 ^ (t - e).toNat) := by
  rw [targetExponent_eq, totalExponent] at ht
  have hlog : (m : ℝ) + 1 ≤ 2 ^ (m.log2 + 1) := by
    have hnat : m + 1 ≤ 2 ^ (m.log2 + 1) := Nat.lt_log2_self
    exact_mod_cast hnat
  have hx : 0 ≤ x := le_trans (by positivity) hle
  have he : e ≤ t := by
    rcases hshort with hfull | hmin
    · have hbits : 52 ≤ m.log2 := (Nat.le_log2 (by omega)).mpr hfull
      omega
    · omega
  refine ⟨he, by omega, ?_, ?_⟩
  · rw [abs_of_nonneg (by positivity), div_lt_iff₀ (by positivity), ← pow_add]
    calc x < m + 1 := hlt
      _ ≤ 2 ^ (m.log2 + 1) := hlog
      _ ≤ 2 ^ (53 + (t - e).toNat) := pow_le_pow_right₀ (by norm_num) (by omega)
  · rcases le_or_gt t (-1074) with hmin | hmin
    · exact .inr (by omega)
    · have hm : m ≠ 0 := by
        rintro rfl
        have hzero : Nat.log2 0 = 0 := rfl
        rw [hzero] at ht
        omega
      left
      rw [abs_of_nonneg (by positivity), le_div_iff₀ (by positivity), ← pow_add]
      have hpow : (2 : ℝ) ^ m.log2 ≤ m := by exact_mod_cast Nat.log2_self_le hm
      calc (2 : ℝ) ^ (52 + (t - e).toNat) = 2 ^ m.log2 := by
            congr 1
            omega
        _ ≤ m := hpow
        _ ≤ x := hle

/-! ## Rounding -/

/-- A multiple `r` of `2 ^ t` with its sign. -/
def onGrid (s : Sign) (r : ℕ) (t : ℤ) : UnpackedFloat :=
  if h : r = 0 then .zero s
  else if r = 2 ^ 53 then .finite s (2 ^ 52) (t + 1) (by norm_num)
  else .finite s r t (Nat.pos_of_ne_zero h)

/-- `u` is what the number `y` with the sign `s` is rounded to. -/
inductive Grounded (s : Sign) (y : ℝ) (u : UnpackedFloat) : Prop
  | intro (t : ℤ) (x : ℝ) (r : ℕ) :
      OnGrid t x → RoundsTo x r → y = x * 2 ^ t → u = onGrid s r t → Grounded s y u

/-- A number is rounded in one way. -/
theorem Grounded.unique {s : Sign} {y : ℝ} {u u' : UnpackedFloat} (h : Grounded s y u)
    (h' : Grounded s y u') : u = u' := by
  obtain ⟨t, x, r, hgrid, hround, rfl, rfl⟩ := h
  obtain ⟨t', x', r', hgrid', hround', hvalue, rfl⟩ := h'
  obtain ⟨rfl, rfl⟩ := hgrid.unique hgrid' hvalue
  rw [hround.unique hround']

/-- What a mantissa and an accuracy tell about a number. -/
def Accurate (m : ℕ) (a : Accuracy) (x : ℝ) : Prop :=
  Tells (ExtendedMantissa.ofMantissaAndAccuracy m a) x

theorem accurate_exact (m : ℕ) : Accurate m .exact m := rfl

/-- A mantissa on its grid is not shifted any more, unless it has become too long. -/
theorem shiftToTargetExponent_onGrid {r : ℕ} {t : ℤ} (hr : r ≤ 2 ^ 53) (ht : -1074 ≤ t) :
    shiftToTargetExponent .binary64 r t .exact
      = if r = 2 ^ 53 then (⟨2 ^ 52, false, false⟩, t + 1) else (⟨r, false, false⟩, t) := by
  unfold shiftToTargetExponent shiftToExponent
  rw [targetExponent_eq, totalExponent]
  split
  · next hlong =>
      subst hlong
      have hlog : Nat.log2 (2 ^ 53) = 53 := Nat.log2_two_pow
      have hshift : (max ((Nat.log2 (2 ^ 53) : ℤ) + 1 + t - 53) (-1074) - t).toNat = 1 := by
        rw [hlog]
        omega
      simp only [hshift]
      rfl
  · next hshort =>
      have hlog : r.log2 ≤ 52 := by
        rcases Nat.eq_zero_or_pos r with rfl | hpos
        · exact Nat.zero_le _
        · have hlt := (Nat.log2_lt (by omega)).mpr (lt_of_le_of_ne hr hshort)
          omega
      have hshift : (max ((r.log2 : ℤ) + 1 + t - 53) (-1074) - t).toNat = 0 := by omega
      simp only [hshift, Nat.cast_zero, add_zero]
      rfl

theorem RoundsTo.le {x : ℝ} {r : ℕ} (h : RoundsTo x r) (hx : |x| < 2 ^ 53) : r ≤ 2 ^ 53 := by
  have hnext := abs_le.mp h.next
  have hlt := (abs_lt.mp hx).2
  have hreal : (r : ℝ) < 2 ^ 53 + 1 := by
    have hcast : ((r : ℤ) : ℝ) = r := Int.cast_natCast r
    linarith
  have hnat : r < 2 ^ 53 + 1 := by exact_mod_cast hreal
  omega

/-- A full mantissa stays full. -/
theorem RoundsTo.full {x : ℝ} {r : ℕ} (h : RoundsTo x r) (hx : 2 ^ 52 ≤ |x|) : 2 ^ 52 ≤ r := by
  have hsize : |x| ≤ r + 1 / 2 := by
    have hnext := h.next
    have htriangle := abs_sub_abs_le_abs_sub x (r : ℤ)
    rw [abs_sub_comm, Int.cast_natCast] at hnext
    rw [Int.cast_natCast, Nat.abs_cast] at htriangle
    linarith
  have hreal : (2 : ℝ) ^ 52 < r + 1 := by linarith
  have hnat : 2 ^ 52 < r + 1 := by exact_mod_cast hreal
  omega

/-- **Rounding.** A number that is told well enough is rounded to the grid of its size. -/
theorem roundWithAccuracy_eq (s : Sign) {m : ℕ} {e : ℤ} {a : Accuracy} {x : ℝ}
    (htells : Accurate m a x) (hshort : 2 ^ 52 ≤ m ∨ e ≤ -1074) :
    Grounded s (x * 2 ^ e) (roundWithAccuracy .binary64 s m e a) := by
  obtain ⟨t, ht⟩ : ∃ t, t = Format.binary64.targetExponent (totalExponent m e) := ⟨_, rfl⟩
  have hmantissa : (ExtendedMantissa.ofMantissaAndAccuracy m a).mantissa = m := by
    rcases a with _ | _ | _ | _ <;> rfl
  obtain ⟨het, hgrid⟩ := onGrid_target (hmantissa ▸ htells.le) (hmantissa ▸ htells.lt) hshort ht
  have hround := (htells.shiftRight (t - e).toNat).roundsTo
  have hexponent : e + ((t - e).toNat : ℤ) = t := by omega
  refine ⟨t, _, _, hgrid, hround, ?_, ?_⟩
  · have hpow : (2 : ℝ) ^ t = 2 ^ (t - e).toNat * 2 ^ e := by
      rw [← zpow_natCast, ← zpow_add₀ (by norm_num)]
      congr 1
      omega
    rw [hpow, ← mul_assoc, div_mul_cancel₀ _ (by positivity)]
  · have hle := hround.le hgrid.abs_lt
    revert hle
    unfold roundWithAccuracy
    rw [shiftToTargetExponent, shiftToExponent, ← ht]
    simp only [hexponent]
    generalize (ExtendedMantissa.ofMantissaAndAccuracy m a >>>
      (t - e).toNat).roundedMantissa = r
    intro hle
    have hshift := shiftToTargetExponent_onGrid hle hgrid.le_exponent
    by_cases hlong : r = 2 ^ 53
    · subst hlong
      rw [if_pos rfl] at hshift
      simp only [hshift, onGrid]
      rfl
    · simp only [hshift, hlong, if_false, onGrid]

/-! ## Storing -/

section

variable {t : ℤ} {x : ℝ} {r : ℕ}

/-- A number is large if its exponent is, or if it grows too large when it is rounded. -/
theorem OnGrid.le_abs (hgrid : OnGrid t x) (hround : RoundsTo x r)
    (ht : 971 < t ∨ 971 ≤ t ∧ r = 2 ^ 53) :
    (2 ^ 53 - 1 / 2) * 2 ^ (971 : ℤ) ≤ |x * 2 ^ t| := by
  rw [abs_mul, abs_of_pos (by positivity : (0 : ℝ) < 2 ^ t)]
  rcases ht with ht | ⟨ht, hlong⟩
  · have hfull := hgrid.full.resolve_right (by omega)
    calc (2 ^ 53 - 1 / 2) * (2 : ℝ) ^ (971 : ℤ) ≤ 2 ^ 53 * 2 ^ (971 : ℤ) := by
          gcongr
          norm_num
      _ = 2 ^ 52 * 2 ^ (971 + 1 : ℤ) := by
          rw [zpow_add₀ (by norm_num)]
          ring
      _ ≤ |x| * 2 ^ t := by
          gcongr
          · norm_num
          · exact ht
  · have hnext := abs_le.mp hround.next
    have hlow : (2 : ℝ) ^ 53 - 1 / 2 ≤ |x| := by
      rw [hlong] at hnext
      push_cast at hnext
      linarith [le_abs_self x]
    gcongr
    norm_num

/-- What a number with a sign is rounded to is the nearest. -/
theorem OnGrid.nearest_signed (hgrid : OnGrid t x) (hround : RoundsTo x r) (s : Sign)
    (hrepresentable : Representable ((r : ℤ) * 2 ^ t)) :
    Nearest (signed s (r * 2 ^ t)) (signed s (x * 2 ^ t)) := by
  have hnear := hgrid.nearest hround.next hrepresentable
  rw [Int.cast_natCast] at hnear
  cases s with
  | negative => exact hnear.neg
  | positive => exact hnear

end

/-- What a number was rounded to is stored as it is, and then it is the nearest, or it is too large
and stored as infinity. -/
theorem Grounded.stored {s : Sign} {y : ℝ} {u : UnpackedFloat} (h : Grounded s y u) :
    ((Float.Model.pack u).unpack = u ∧ u.isFinite ∧ Nearest (unpackedValue u) (signed s y)) ∨
      ((Float.Model.pack u).unpack = .infinity s ∧ (2 ^ 53 - 1 / 2) * 2 ^ (971 : ℤ) ≤ |y|) := by
  obtain ⟨t, x, r, hgrid, hround, rfl, rfl⟩ := h
  have hmin := hgrid.le_exponent
  have hle := hround.le hgrid.abs_lt
  have hnearest := hgrid.nearest_signed hround s
  unfold onGrid
  split
  · next hzero =>
      subst hzero
      have hnear := hnearest (by simpa using representable_zero)
      refine .inl ⟨unpack_pack_zero s, rfl, ?_⟩
      cases s <;> simpa [unpackedValue] using hnear
  · next hne =>
      split
      · next hlong =>
          -- The mantissa has become too long, and is shifted once more.
          by_cases ht : t + 1 ≤ 971
          · have hc : Canonical (2 ^ 52) (t + 1) :=
              ⟨by norm_num, by norm_num, by omega, ht, .inl le_rfl⟩
            have hvalue : ((2 ^ 52 : ℕ) : ℝ) * 2 ^ (t + 1) = r * 2 ^ t := by
              rw [hlong, zpow_add₀ (by norm_num)]
              push_cast
              ring
            refine .inl ⟨hc.unpack_pack s, rfl, ?_⟩
            show Nearest (signed s ((2 ^ 52 : ℕ) * 2 ^ (t + 1))) _
            rw [hvalue]
            exact hnearest (hgrid.representable (by omega) hround.next)
          · exact .inr ⟨unpack_pack_large s (by norm_num) (by omega),
              hgrid.le_abs hround (.inr ⟨by omega, hlong⟩)⟩
      · next hshort =>
          by_cases ht : t ≤ 971
          · have hfull : 2 ^ 52 ≤ r ∨ t = -1074 := hgrid.full.imp_left hround.full
            have hc : Canonical r t :=
              ⟨Nat.pos_of_ne_zero hne, lt_of_le_of_ne hle hshort, hmin, ht, hfull⟩
            have hrepresentable : Representable ((r : ℤ) * 2 ^ t) :=
              ⟨r, t, by rw [Nat.abs_cast]; exact_mod_cast hc.lt, hmin, ht, rfl⟩
            exact .inl ⟨hc.unpack_pack s, rfl, hnearest hrepresentable⟩
          · exact .inr ⟨unpack_pack_large s _ (by omega), hgrid.le_abs hround (.inl (by omega))⟩

end RideHud.Binary64
