import Mathlib.Algebra.Order.Field.Basic
import Mathlib.Data.List.Range
import RideHud.Proofs.Draw.Trail
import RideHud.Proofs.Exact

/-!
# Arcs from their start to their end

The end of an arc is moved on by whole turns for as long as it lies before the start (`Unwinds`).
With exact arithmetic, where a turn is more than nothing, it arrives after the least number of turns
that is enough (`unwound_eq`, `unwinds_iff`). From the start to there the arc is drawn through
angles at equal steps, of which it takes at least 128 to make a turn (`exists_angles`).

* `arc_reaches`: where an arc ends, and what it adds to a path.
-/

namespace RideHud

open scoped Scalar

namespace Arc

/-! ## The end of an arc -/

section

variable {α : Type} [Elementary α] {start stop last last' : α}

/-- The end of an arc is moved on by a turn for as long as it lies before the start. -/
inductive Unwinds (start : α) : α → α → Prop where
  | arrived {stop : α} (h : ¬stop < start) : Unwinds start stop stop
  | turn {stop last : α} (h : stop < start) (hnext : Unwinds start (stop + Elementary.turn) last) :
      Unwinds start stop last

/-- There is at most one place at which the end arrives. -/
theorem Unwinds.unique (h : Unwinds start stop last) (h' : Unwinds start stop last') :
    last = last' := by
  induction h with
  | arrived hstop =>
      cases h' with
      | arrived _ => rfl
      | turn hlt _ => exact absurd hlt hstop
  | turn hlt _ ih =>
      cases h' with
      | arrived hstop => exact absurd hlt hstop
      | turn _ hnext => exact ih hnext

/-- If some turns are enough, the end arrives where they bring it. -/
theorem unwinds_unwound {turns : ℕ} (h : ¬unwound start turns stop < start) :
    Unwinds start stop (unwound start turns stop) := by
  induction turns generalizing stop with
  | zero => exact .arrived h
  | succ turns ih =>
      rw [unwound] at h ⊢
      split at h
      · next hlt =>
          rw [if_pos hlt]
          exact .turn hlt (ih h)
      · next hstop =>
          rw [if_neg hstop]
          exact .arrived hstop

end

open scoped RideHud.Exact

/-! ## Enough turns -/

section

variable {K : Type} [DivisionRing K] [LinearOrder K] {f : Exact.Functions K} {start stop : K}

theorem add_turn_add (stop : K) (j : ℕ) :
    letI := Exact.elementary f
    stop + Elementary.turn + j * Elementary.turn = stop + (j + 1 : ℕ) * Elementary.turn := by
  let _ := Exact.elementary f
  rw [Nat.cast_succ, add_mul, one_mul, add_assoc, add_comm (Elementary.turn : K)]

/-- If turns are needed, one less is needed after the first one. -/
theorem isLeast_next {k : ℕ} :
    letI := Exact.elementary f
    IsLeast {k : ℕ | start ≤ stop + k * Elementary.turn} (k + 1) →
      stop < start ∧ IsLeast {k : ℕ | start ≤ stop + Elementary.turn + k * Elementary.turn} k := by
  let _ := Exact.elementary f
  rintro ⟨henough, hleast⟩
  -- An end that is not before the start would need no turn.
  refine ⟨not_le.mp fun hstop => Nat.not_succ_le_zero k (hleast ?_), ?_, fun j hj => ?_⟩
  · show start ≤ stop + (0 : ℕ) * Elementary.turn
    rwa [Nat.cast_zero, zero_mul, add_zero]
  · exact henough.trans_eq (add_turn_add stop k).symm
  · exact Nat.le_of_succ_le_succ (hleast (hj.trans_eq (add_turn_add stop j)))

/-- **Turns that are enough** bring the end of an arc on by the least number of them. -/
theorem unwound_eq {k turns : ℕ} :
    letI := Exact.elementary f
    IsLeast {k : ℕ | start ≤ stop + k * Elementary.turn} k → k ≤ turns →
      unwound start turns stop = stop + k * Elementary.turn := by
  let _ := Exact.elementary f
  intro hleast hle
  -- The induction is on the turns that are needed; of those that are tried there may be more.
  induction k generalizing stop turns with
  | zero =>
      have hstop : start ≤ stop + (0 : ℕ) * Elementary.turn := hleast.1
      rw [Nat.cast_zero, zero_mul, add_zero] at hstop ⊢
      cases turns with
      | zero => rfl
      | succ turns => exact if_neg (not_lt.mpr hstop)
  | succ k ih =>
      obtain ⟨hlt, hnext⟩ := isLeast_next hleast
      cases turns with
      | zero => cases hle
      | succ turns =>
          rw [unwound, if_pos hlt, ih hnext (Nat.le_of_succ_le_succ hle), add_turn_add]

variable [IsStrictOrderedRing K] (hpi : 0 < f.pi)
  (hceil : ∀ x : K, IsLeast {n : ℕ | x ≤ n} (f.ceil x))

include hpi in
/-- A turn is more than nothing. -/
theorem turn_pos :
    letI := Exact.elementary f
    (0 : K) < Elementary.turn := by
  let _ := Exact.elementary f
  rw [Elementary.turn, Exact.two_eq]
  exact mul_pos two_pos hpi

include hpi hceil

/-- The least number of turns that bring the end of an arc to its start or beyond. -/
theorem isLeast_turns (start stop : K) :
    letI := Exact.elementary f
    IsLeast {k : ℕ | start ≤ stop + k * Elementary.turn}
      (f.ceil ((start - stop) / Elementary.turn)) := by
  let _ := Exact.elementary f
  have hturns (k : ℕ) : start ≤ stop + k * Elementary.turn
      ↔ (start - stop) / Elementary.turn ≤ k := by
    rw [div_le_iff₀ (turn_pos hpi), sub_le_iff_le_add']
  obtain ⟨henough, hleast⟩ := hceil ((start - stop) / Elementary.turn)
  exact ⟨(hturns _).mpr henough, fun k hk => hleast ((hturns k).mp hk)⟩

/-- The turns that are tried are enough. -/
theorem last_eq (start stop : K) :
    letI := Exact.elementary f
    last start stop = stop + f.ceil ((start - stop) / Elementary.turn) * Elementary.turn := by
  let _ := Exact.elementary f
  exact unwound_eq (isLeast_turns hpi hceil start stop) (Nat.le_succ _)

theorem le_last (start stop : K) :
    letI := Exact.elementary f
    start ≤ last start stop := by
  let _ := Exact.elementary f
  rw [last_eq hpi hceil]
  exact (isLeast_turns hpi hceil start stop).1

/-- **The end of an arc arrives**, and it does so at the last angle. -/
theorem unwinds_iff (start stop angle : K) :
    letI := Exact.elementary f
    Unwinds start stop angle ↔ angle = last start stop := by
  let _ := Exact.elementary f
  have harrives : Unwinds start stop (last start stop) :=
    unwinds_unwound (not_lt.mpr (le_last hpi hceil start stop))
  exact ⟨fun h => h.unique harrives, fun h => h ▸ harrives⟩

end

/-! ## Equal steps -/

section

variable {K : Type} [DivisionRing K] {low high : K} {n : ℕ}

/-- The place after some of the equal steps that lead from one number to another. -/
def stepped (low high : K) (n i : ℕ) : K := low + (high - low) * i / n

theorem stepped_zero : stepped low high n 0 = low := by
  rw [stepped, Nat.cast_zero, mul_zero, zero_div, add_zero]

theorem stepped_self (hn : (n : K) ≠ 0) : stepped low high n n = high := by
  rw [stepped, mul_div_cancel_right₀ _ hn, add_sub_cancel]

/-- All steps have the same length. -/
theorem stepped_succ_sub (i : ℕ) :
    stepped low high n (i + 1) - stepped low high n i = (high - low) / n := by
  rw [stepped, stepped, add_sub_add_left_eq_sub, ← sub_div, ← mul_sub, Nat.cast_succ,
    add_sub_cancel_left, mul_one]

/-- Equal steps lead upwards, and none is longer than a length of which so many lead far enough. -/
theorem isChain_stepped [LinearOrder K] [IsStrictOrderedRing K] {most : K} (hle : low ≤ high)
    (hn : (0 : K) < n) (hmost : high - low ≤ n * most) :
    ((List.range (n + 1)).map (stepped low high n)).IsChain fun a b => a ≤ b ∧ b - a ≤ most := by
  rw [List.isChain_map, List.isChain_range_succ]
  intro i _
  have hnonneg : 0 ≤ (high - low) / (n : K) := div_nonneg (sub_nonneg.mpr hle) hn.le
  refine ⟨sub_nonneg.mp (hnonneg.trans_eq (stepped_succ_sub i).symm),
    (stepped_succ_sub i).trans_le ?_⟩
  rwa [div_le_iff₀ hn, ← Nat.cast_comm]

end

/-! ## The angles of an arc -/

section

variable {K : Type} [DivisionRing K] [LinearOrder K] [IsStrictOrderedRing K] {f : Exact.Functions K}
  (hpi : 0 < f.pi) (hceil : ∀ x : K, IsLeast {n : ℕ | x ≤ n} (f.ceil x))

include hpi hceil

/-- There are enough pieces to make none of them larger than that of a full turn. -/
theorem le_pieces_mul (start last : K) :
    letI := Exact.elementary f
    last - start ≤ pieces start last * (Elementary.turn / 128) := by
  let _ := Exact.elementary f
  have hpiece : (0 : K) < Elementary.turn / 128 := div_pos (turn_pos hpi) (by norm_num)
  rw [← div_le_iff₀ hpiece]
  exact (hceil _).1.trans (Nat.cast_le.mpr (le_max_right _ _))

/-- **The angles of an arc** go from its start to its last angle in small steps. -/
theorem exists_angles (start stop : K) :
    letI := Exact.elementary f
    ∃ rest : List K, angles start stop = start :: rest ∧ rest.getLast? = some (last start stop) ∧
      (start :: rest).IsChain fun a b => a ≤ b ∧ b - a ≤ Elementary.turn / 128 := by
  let _ := Exact.elementary f
  obtain ⟨m, hm⟩ : ∃ m, pieces start (last start stop) = m + 1 :=
    Nat.exists_eq_add_of_le' (le_max_left 1 _)
  have hpos : (0 : K) < (m + 1 : ℕ) := Nat.cast_pos.mpr (Nat.succ_pos m)
  have hangles : angles start stop
      = (List.range (m + 1 + 1)).map (stepped start (last start stop) (m + 1)) := by
    rw [← hm]
    rfl
  have hmost := le_pieces_mul hpi hceil start (last start stop)
  rw [hm] at hmost
  have hchain := isChain_stepped (le_last hpi hceil start stop) hpos hmost
  rw [← hangles] at hchain
  rw [List.range_succ_eq_map, List.map_cons, stepped_zero, List.map_map] at hangles
  refine ⟨_, hangles, ?_, hangles ▸ hchain⟩
  rw [List.range_succ, List.map_append, List.map_singleton, List.getLast?_concat,
    Function.comp_apply, Nat.succ_eq_add_one, stepped_self hpos.ne']

end

end Arc

/-! ## Drawing -/

/-- The point of a circle at an angle. -/
def Arc.place {α : Type} [Elementary α] (cx cy radius angle : α) : α × α :=
  (cx + radius * Elementary.cos angle, cy + radius * Elementary.sin angle)

/-- Draw along a circle, from one angle on to another in the positive direction. -/
def Trail.arc {α : Type} [Elementary α] (t : Trail α) (cx cy radius start stop : α) : Trail α :=
  (Arc.points cx cy radius start stop).foldl lineTo t

namespace Raster

variable (r : Raster) (t : Trail Float)

/-- **A canvas draws arcs as a trail does.** -/
theorem arc_follow (cx cy radius start stop : Float) :
    (r.follow t).change (.arc cx cy radius start stop)
      = r.follow (t.arc cx cy radius start stop) :=
  List.foldl_hom r.follow fun t p => lineTo_follow r t p

/-- An arc adds to the path of a canvas what it adds to a trail, as the transform maps it. -/
theorem arc_eq_follow (cx cy radius start stop : Float) :
    r.change (.arc cx cy radius start stop)
      = r.follow (Trail.arc ⟨[], r.current⟩ cx cy radius start stop) := by
  rw [← arc_follow, follow_current]

end Raster

namespace Trail

open scoped RideHud.Exact

variable {K : Type} [DivisionRing K] [LinearOrder K] [IsStrictOrderedRing K] {f : Exact.Functions K}

/-- **An arc is drawn from its start to its end.** With exact arithmetic, where a turn is more than
nothing and ceilings are what they are: for all angles, every circle and every path with or without
a current point, the end is moved on until it arrives, which it does after the least number of turns
that bring it to the start or beyond. The arc adds the point at the start, to which it moves if
there is no current point and draws a line otherwise, and then lines through one or more further
points. Their angles never decrease, none is more than the 128th part of a turn from the one before
it, and the last one is that of the end. -/
theorem arc_reaches (hpi : 0 < f.pi) (hceil : ∀ x : K, IsLeast {n : ℕ | x ≤ n} (f.ceil x))
    (t : Trail K) (cx cy radius start stop : K) :
    letI := Exact.elementary f
    ∃ (k : ℕ) (rest : List K),
      IsLeast {k : ℕ | start ≤ stop + k * Elementary.turn} k ∧
      (∀ angle : K, Arc.Unwinds start stop angle ↔ angle = stop + k * Elementary.turn) ∧
      rest.getLast? = some (stop + k * Elementary.turn) ∧
      ((start :: rest).IsChain fun a b => a ≤ b ∧ b - a ≤ Elementary.turn / 128) ∧
      t.arc cx cy radius start stop =
        ⟨t.legs ++
          (if t.current.isNone then .move (Arc.place cx cy radius start)
            else .line (Arc.place cx cy radius start)) ::
          rest.map fun angle => .line (Arc.place cx cy radius angle),
        some (Arc.place cx cy radius (stop + k * Elementary.turn))⟩ := by
  let _ := Exact.elementary f
  obtain ⟨rest, hangles, hlast, hchain⟩ := Arc.exists_angles hpi hceil start stop
  have harrives := Arc.unwinds_iff hpi hceil start stop
  rw [Arc.last_eq hpi hceil] at hlast harrives
  refine ⟨_, rest, Arc.isLeast_turns hpi hceil start stop, harrives, hlast, hchain, ?_⟩
  have hpoints : Arc.points cx cy radius start stop
      = Arc.place cx cy radius start :: rest.map (Arc.place cx cy radius) := by
    show (Arc.angles start stop).map (Arc.place cx cy radius) = _
    rw [hangles, List.map_cons]
  rw [arc, hpoints, foldl_lineTo, List.map_map, List.getLast?_map, hlast]
  rfl

/-- Half a circle that starts at half a turn: its end at zero is moved on by a turn. -/
theorem arc_of_halfTurn :
    0 < Exact.real.pi ∧ (∀ x : ℝ, IsLeast {n : ℕ | x ≤ n} (Exact.real.ceil x)) ∧
    (∀ angle : ℝ, Arc.Unwinds Real.pi 0 angle ↔ angle = 2 * Real.pi) ∧
    ∃ rest : List ℝ, rest.getLast? = some (2 * Real.pi) ∧
      ((Real.pi :: rest).IsChain fun a b => a ≤ b ∧ b - a ≤ 2 * Real.pi / 128) ∧
      (⟨[], none⟩ : Trail ℝ).arc 0 0 1 Real.pi 0 =
        ⟨.move (-1, 0) :: rest.map fun angle => .line (Arc.place 0 0 1 angle), some (1, 0)⟩ := by
  have hpi : 0 < Exact.real.pi := Real.pi_pos
  have hceil (x : ℝ) : IsLeast {n : ℕ | x ≤ n} (Exact.real.ceil x) :=
    ⟨Nat.le_ceil x, fun _ h => Nat.ceil_le.mpr h⟩
  have hturn : (Elementary.turn : ℝ) = 2 * Real.pi := by
    rw [Elementary.turn, Exact.two_eq]
    rfl
  have hplace (angle : ℝ) : Arc.place 0 0 1 angle = (Real.cos angle, Real.sin angle) := by
    show ((0 : ℝ) + 1 * Real.cos angle, (0 : ℝ) + 1 * Real.sin angle) = _
    rw [one_mul, one_mul, zero_add, zero_add]
  obtain ⟨k, rest, hleast, harrives, hlast, hchain, harc⟩ :=
    arc_reaches hpi hceil ⟨[], none⟩ 0 0 1 Real.pi 0
  obtain rfl : k = 1 := by
    rw [hturn] at hleast
    refine hleast.unique ⟨?_, fun j hj => Nat.one_le_iff_ne_zero.mpr ?_⟩
    · show Real.pi ≤ 0 + (1 : ℕ) * (2 * Real.pi)
      rw [Nat.cast_one, one_mul, zero_add, two_mul]
      exact le_add_of_nonneg_left Real.pi_pos.le
    · rintro rfl
      have hreached : Real.pi ≤ 0 + (0 : ℕ) * (2 * Real.pi) := hj
      rw [Nat.cast_zero, zero_mul, zero_add] at hreached
      exact not_lt.mpr hreached Real.pi_pos
  have hend : 0 + ((1 : ℕ) : ℝ) * Elementary.turn = 2 * Real.pi := by
    rw [hturn, Nat.cast_one, one_mul, zero_add]
  rw [hend] at harrives hlast harc
  rw [hturn] at hchain
  refine ⟨hpi, hceil, harrives, rest, hlast, hchain, harc.trans ?_⟩
  rw [hplace, hplace, Real.cos_pi, Real.sin_pi, Real.cos_two_pi, Real.sin_two_pi]
  rfl

end Trail

end RideHud
