import RideHud.Proofs.Series.Landmarks

/-!
# Landmarks of a mirrored series

If all values of a series change their signs, peaks become troughs and troughs become peaks. Two
runs go side by side, one on the values and one on their mirror images: what the one knows is what
the other knows with the direction turned round (`Phase.mirror`), and a step keeps it so
(`step_mirror`). So the marks are the same, all of them turned round (`marks_of_mirrored`).

Two things could tell the runs apart. A value beats another one only strictly, so of equal extremes
both runs keep the first; and a direction is read from a momentum that exceeds the start, which is
not zero unless the start is negative.
-/

namespace RideHud.Series

open scoped RideHud.Exact

variable {K : Type} [DivisionRing K] [LinearOrder K]

/-! ## Extremes -/

theorem Extremum.signed_neg (e : Extremum) (v : K) : e.signed (-v) = -e.signed v := by
  cases e <;> rfl

/-- A number counts for one kind as its mirror image counts for the other. -/
theorem Extremum.signed_opposite_neg (e : Extremum) (v : K) :
    e.opposite.signed (-v) = e.signed v := by
  rw [signed_opposite, signed_neg, neg_neg]

variable [IsStrictOrderedRing K]

theorem Extremum.beats_opposite_neg (e : Extremum) (v w : K) :
    e.opposite.beats (-v) (-w) = e.beats v w := by
  rw [Bool.eq_iff_iff, beats_iff, beats_iff, signed_opposite_neg, signed_opposite_neg]

/-- The first of the most extreme values is in the same place. -/
theorem firstBest_mirror (e : Extremum) (place : ℕ) (value : K) (next : ℕ) (vs : List K) :
    firstBest e.opposite place (-value) next (vs.map (-·))
      = (firstBest e place value next vs).map id (-·) := by
  induction vs generalizing place value next with
  | nil => rfl
  | cons v vs ih =>
      rw [List.map_cons, firstBest, firstBest, e.beats_opposite_neg]
      split
      · exact ih next v (next + 1)
      · exact ih place value (next + 1)

theorem extremeSince_mirror (e : Extremum) (values : List K) (start stop : ℕ) (y : K) :
    extremeSince e.opposite (values.map (-·)) start stop (-y)
      = (extremeSince e values start stop y).map id (-·) := by
  unfold extremeSince
  rw [← List.map_drop, ← List.map_take]
  cases (values.drop start).take (stop + 1 - start) with
  | nil => rfl
  | cons v vs => exact firstBest_mirror e start v (start + 1) vs

/-- A point of the mirrored series. -/
def mirrored (p : K × K) : K × K := (p.1, -p.2)

omit [IsStrictOrderedRing K] in
/-- What rises falls in the mirror, by as much. -/
theorem rise_mirrored (p q : K × K) : rise (mirrored p) (mirrored q) = -rise p q := by
  unfold rise mirrored
  dsimp only
  split
  · exact (neg_sub_neg q.2 p.2).trans (neg_sub q.2 p.2).symm
  · rw [Exact.zero_eq, neg_zero]

/-! ## Phases -/

/-- What is known of the mirrored series. -/
def Phase.mirror : Phase K → Phase K
  | .seeking momentum => .seeking (-momentum)
  | .tracking kind momentum place value => .tracking kind.opposite momentum place (-value)

/-- The landmark of the mirrored series. -/
def turned (landmark : ℕ × Extremum) : ℕ × Extremum := landmark.map id Extremum.opposite

namespace MomentumRule

variable {rule : MomentumRule K}

/-- A step before a direction is known, on the mirrored series. -/
theorem step_seeking_mirror (hstart : 0 ≤ rule.start) (values : List K) (i : ℕ)
    (y rise momentum : K) :
    rule.step (values.map (-·)) i (-y) (-rise) (.seeking (-momentum))
      = (rule.step values i y rise (.seeking momentum)).map Phase.mirror (Option.map turned) := by
  rw [step_seeking, step_seeking, ← neg_add, abs_neg]
  split
  · next hknown =>
      -- The momentum has a sign, so one run goes up where the other one goes down.
      have hne : momentum + rise ≠ 0 := abs_pos.mp (hstart.trans_lt hknown)
      have hkind : (if 0 < -(momentum + rise) then Extremum.peak else .trough)
          = (if 0 < momentum + rise then Extremum.peak else .trough).opposite := by
        rcases hne.lt_or_gt with hneg | hpos
        · rw [if_pos (neg_pos.mpr hneg), if_neg hneg.not_gt]
          rfl
        · rw [if_neg (neg_neg_of_pos hpos).not_gt, if_pos hpos]
          rfl
      dsimp only
      rw [hkind, extremeSince_mirror]
      rfl
  · rfl

/-- A step in a direction, on the mirrored series. -/
theorem step_tracking_mirror (values : List K) (i : ℕ) (y rise : K) (e : Extremum) (momentum : K)
    (place : ℕ) (value : K) :
    rule.step (values.map (-·)) i (-y) (-rise) (.tracking e.opposite momentum place (-value))
      = (rule.step values i y rise (.tracking e momentum place value)).map Phase.mirror
        (Option.map turned) := by
  rw [step_tracking, step_tracking, e.beats_opposite_neg, e.signed_opposite_neg]
  dsimp only
  have hbest : (if e.beats y value then (i, -y) else (place, -value))
      = (if e.beats y value then (i, y) else (place, value)).map id (-·) := by
    split <;> rfl
  rw [hbest]
  generalize (if e.beats y value then (i, y) else (place, value)) = best
  split
  · -- The search from the landmark on is mirrored too.
    have hother := extremeSince_mirror e.opposite values best.1 i y
    have hway (z : K) : -y - -z = -(y - z) := (neg_sub_neg y z).trans (neg_sub y z).symm
    dsimp only [Prod.map]
    rw [id, hother, Prod.map_snd, hway, e.opposite.signed_opposite_neg]
    rfl
  · rfl

/-- **A step keeps the two runs side by side.** -/
theorem step_mirror (hstart : 0 ≤ rule.start) (values : List K) (i : ℕ) (y rise : K)
    (phase : Phase K) :
    rule.step (values.map (-·)) i (-y) (-rise) phase.mirror
      = (rule.step values i y rise phase).map Phase.mirror (Option.map turned) := by
  cases phase with
  | seeking momentum => exact step_seeking_mirror hstart values i y rise momentum
  | tracking e momentum place value =>
      exact step_tracking_mirror values i y rise e momentum place value

/-! ## Runs -/

omit [DivisionRing K] [LinearOrder K] [IsStrictOrderedRing K] in
theorem write_turned (marks : List Mark) (landmark : Option (ℕ × Extremum)) :
    write (marks.map Mark.flip) (landmark.map turned) = (write marks landmark).map Mark.flip := by
  cases landmark with
  | none => rfl
  | some l =>
      show (marks.map Mark.flip).set l.1 l.2.opposite.mark = _
      rw [Extremum.mark_opposite, ← List.map_set]
      rfl

omit [IsStrictOrderedRing K] in
/-- A run goes on from what its first step leaves. -/
theorem run_cons (values : List K) (i : ℕ) (previous point : K × K) (points : List (K × K))
    (phase : Phase K) (marks : List Mark) :
    rule.run values i previous (point :: points) phase marks
      = rule.run values (i + 1) point points
        (rule.step values i point.2 (rise previous point) phase).1
        (write marks (rule.step values i point.2 (rise previous point) phase).2) := rfl

/-- **A run keeps the two side by side**, with the marks so far. -/
theorem run_mirror (hstart : 0 ≤ rule.start) (values : List K) (i : ℕ) (previous : K × K)
    (points : List (K × K)) (phase : Phase K) (marks : List Mark) :
    rule.run (values.map (-·)) i (mirrored previous) (points.map mirrored) phase.mirror
        (marks.map Mark.flip)
      = (rule.run values i previous points phase marks).map Phase.mirror (List.map Mark.flip) := by
  induction points generalizing i previous phase marks with
  | nil => rfl
  | cons point points ih =>
      have hstep := step_mirror hstart values i point.2 (rise previous point) phase
      rw [← rise_mirrored] at hstep
      rw [List.map_cons, run_cons, run_cons]
      dsimp only [mirrored] at hstep ⊢
      rw [hstep, Prod.map_fst, Prod.map_snd, write_turned]
      exact ih (i + 1) point _ _

theorem trailing_mirror (n : ℕ) (y : K) (phase : Phase K) :
    trailing n (-y) phase.mirror = (trailing n y phase).map turned := by
  cases phase with
  | seeking momentum => rfl
  | tracking e momentum place value =>
      rw [Phase.mirror, trailing, trailing, e.beats_opposite_neg]
      split <;> rfl

omit [IsStrictOrderedRing K] in
/-- The marks of a series with points. -/
theorem marks_cons (point : K × K) (points : List (K × K)) :
    rule.marks (point :: points)
      = let after := rule.run ((point :: points).map (·.2)) 1 point points (.seeking 0)
          (List.replicate (points.length + 1) .plain)
        write after.2 (trailing (points.length + 1) (points.getLastD point).2 after.1) := by
  rw [← Exact.zero_eq]
  rfl

/-- The marks of a mirrored series are turned round. -/
theorem marks_mirrored (hstart : 0 ≤ rule.start) (points : List (K × K)) :
    rule.marks (points.map mirrored) = (rule.marks points).map Mark.flip := by
  cases points with
  | nil => rfl
  | cons point points =>
      have hvalues : (mirrored point :: points.map mirrored).map (·.2)
          = ((point :: points).map (·.2)).map (-·) := by
        rw [← List.map_cons, List.map_map, List.map_map]
        rfl
      have hlast : ((points.map mirrored).getLastD (mirrored point)).2
          = -(points.getLastD point).2 := by
        rw [List.getLastD_map]
        rfl
      have hrun := run_mirror hstart ((point :: points).map (·.2)) 1 point points (.seeking 0)
        (List.replicate (points.length + 1) .plain)
      rw [Phase.mirror, neg_zero, List.map_replicate, Mark.flip] at hrun
      rw [List.map_cons, marks_cons, marks_cons, hvalues, List.length_map, hlast]
      dsimp only
      rw [hrun, Prod.map_fst, Prod.map_snd, trailing_mirror, write_turned]

/-- **Landmarks treat peaks and troughs alike.** For every series of exact numbers over any
abscissas, every friction and every threshold from zero on, the series with all its values negated
has the same landmarks with the opposite signs. -/
theorem marks_of_mirrored {rule : MomentumRule K} (hstart : 0 ≤ rule.start)
    (points : List (K × K)) :
    (rule.marks (points.map fun p => (p.1, -p.2))).map Mark.toInt
      = (rule.marks points).map fun m => -m.toInt := by
  have hmirrored : rule.marks (points.map fun p => (p.1, -p.2)) = _ := marks_mirrored hstart points
  rw [hmirrored, List.map_map]
  exact List.map_congr_left fun m _ => m.toInt_flip

/-- A series with a plateau on each side, over abscissas that go back once. -/
def plateaus : List (ℚ × ℚ) :=
  [(0, 0), (1, 3), (2, 8), (3, 8), (4, 2), (4, 5), (3, 1), (5, -4), (6, -4), (7, 3), (8, 1)]

/-- Its first peak and its last one are troughs of the mirrored series. -/
theorem marks_of_plateaus :
    0 ≤ (halving 1).start ∧
      ((halving 1).marks plateaus).map Mark.toInt = [0, 0, 1, 0, -1, 1, 0, -1, 0, 1, 0] ∧
      ((halving 1).marks (plateaus.map fun p => (p.1, -p.2))).map Mark.toInt
        = [0, 0, -1, 0, 1, -1, 0, 1, 0, -1, 0] := by
  have hstart : 0 ≤ (halving 1).start := by decide +kernel
  refine ⟨hstart, by decide +kernel, ?_⟩
  rw [marks_of_mirrored hstart]
  decide +kernel

end MomentumRule

end RideHud.Series
