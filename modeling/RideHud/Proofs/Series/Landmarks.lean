import Mathlib.Algebra.Order.Ring.Rat
import Mathlib.Data.List.Chain
import Mathlib.Tactic.Abel
import RideHud.Proofs.Exact
import RideHud.Series.Landmarks

/-!
# Landmarks alternate

A landmark is completed where the direction turns, and the next one is searched from there on in the
other direction, so peaks and troughs come in turn. Two of them are told apart by their places as
long as the series has left the value of the first by the time the second is completed. It has,
unless it stands still right after a turn (`marks_alternate`); if it does, a landmark may be
completed on the spot and take the mark of the one before (`marks_standstill`).

What carries the proof is `Follows`: what is tracked is the most extreme value since the last
landmark (`Best`), and all marks so far alternate and lie before it (`Awaits`).
-/

namespace RideHud.Series

/-! ## Turns -/

namespace MomentumRule

open scoped Scalar

variable {α : Type} [Scalar α]

/-- The places at which the direction turns, on the points from the `i`-th on. -/
def turnsFrom (rule : MomentumRule α) (values : List α) :
    (i : ℕ) → (previous : α × α) → List (α × α) → Phase α → List ℕ
  | _, _, [], _ => []
  | i, previous, point :: points, phase =>
    let (phase, landmark) := rule.step values i point.2 (rise previous point) phase
    (if landmark.isSome then [i] else []) ++ turnsFrom rule values (i + 1) point points phase

/-- The places at which the direction turns. -/
def turns (rule : MomentumRule α) : List (α × α) → List ℕ
  | [] => []
  | point :: points =>
    rule.turnsFrom ((point :: points).map (·.2)) 1 point points (.seeking 0)

end MomentumRule

open scoped RideHud.Exact

variable {K : Type} [DivisionRing K] [LinearOrder K]

/-! ## Kinds of extremum -/

namespace Extremum

theorem signed_sub (e : Extremum) (v w : K) : e.signed (v - w) = e.signed v - e.signed w := by
  cases e with
  | peak => rfl
  | trough => exact (neg_sub v w).trans (neg_sub_neg v w).symm

theorem signed_opposite (e : Extremum) (v : K) : e.opposite.signed v = -e.signed v := by
  cases e with
  | peak => rfl
  | trough => exact (neg_neg v).symm

theorem signed_inj (e : Extremum) {v w : K} : e.signed v = e.signed w ↔ v = w := by
  cases e with
  | peak => rfl
  | trough => exact neg_inj

/-- Extremes are marked. -/
theorem isMarked_mark (e : Extremum) : e.mark.isMarked = true := by cases e <;> rfl

theorem mark_ne_plain (e : Extremum) : e.mark ≠ .plain := by cases e <;> nofun

/-- The other kind turns the order round. -/
theorem signed_opposite_le_iff [IsStrictOrderedRing K] (e : Extremum) {v w : K} :
    e.opposite.signed v ≤ e.opposite.signed w ↔ e.signed w ≤ e.signed v := by
  rw [signed_opposite, signed_opposite, neg_le_neg_iff]

/-- With the sign of its kind, a more extreme number is a larger one. -/
theorem beats_iff [IsStrictOrderedRing K] (e : Extremum) (v w : K) :
    e.beats v w = true ↔ e.signed w < e.signed v := by
  cases e with
  | peak => exact decide_eq_true_iff
  | trough => exact decide_eq_true_iff.trans neg_lt_neg_iff.symm

end Extremum

/-! ## The most extreme value of a stretch -/

/-- Among the values from `start` to `stop`, none is more extreme than `value` at `place`. -/
structure Best (e : Extremum) (values : List K) (start stop place : ℕ) (value : K) : Prop where
  start_le : start ≤ place
  le_stop : place ≤ stop
  get : values[place]? = some value
  best : ∀ j v, start ≤ j → j ≤ stop → values[j]? = some v → e.signed v ≤ e.signed value

namespace Best

variable {e : Extremum} {values : List K} {start stop place : ℕ} {value v : K}

theorem lt_length (h : Best e values start stop place value) : place < values.length :=
  (List.getElem?_eq_some_iff.mp h.get).1

/-- A single value is the most extreme one. -/
theorem single (h : values[start]? = some value) : Best e values start start start value where
  start_le := Nat.le_refl _
  le_stop := Nat.le_refl _
  get := h
  best j v hj hj' hv := by
    obtain rfl : j = start := by omega
    rw [h] at hv
    rw [Option.some.inj hv]

/-- The most extreme value is so from its place on. -/
theorem tail (h : Best e values start stop place value) : Best e values place stop place value where
  start_le := Nat.le_refl _
  le_stop := h.le_stop
  get := h.get
  best j v hj hj' hv := h.best j v (Nat.le_trans h.start_le hj) hj' hv

variable [IsStrictOrderedRing K]

/-- One value more does not change what is the most extreme, or it is the most extreme. -/
theorem next (h : Best e values start stop place value) (hv : values[stop + 1]? = some v) :
    Best e values start (stop + 1) (if e.beats v value then (stop + 1, v) else (place, value)).1
      (if e.beats v value then (stop + 1, v) else (place, value)).2 := by
  have hlast : ∀ {j w}, j ≤ stop + 1 → ¬j ≤ stop → values[j]? = some w → w = v := by
    intro j w hj hnot hw
    obtain rfl : j = stop + 1 := by omega
    exact Option.some.inj (hw.symm.trans hv)
  have hstart := h.start_le
  have hstop := h.le_stop
  split
  · next hbeats =>
      rw [Extremum.beats_iff] at hbeats
      refine ⟨by omega, Nat.le_refl _, hv, fun j w hj hj' hw => ?_⟩
      by_cases hle : j ≤ stop
      · exact (h.best j w hj hle hw).trans hbeats.le
      · rw [hlast hj' hle hw]
  · next hbeats =>
      rw [Extremum.beats_iff, not_lt] at hbeats
      refine ⟨hstart, by omega, h.get, fun j w hj hj' hw => ?_⟩
      by_cases hle : j ≤ stop
      · exact h.best j w hj hle hw
      · rwa [hlast hj' hle hw]

/-- Going through more values keeps the most extreme one. -/
theorem firstBest {vs : List K} (h : Best e values start stop place value)
    (hvs : ∀ k v, vs[k]? = some v → values[stop + 1 + k]? = some v) :
    Best e values start (stop + vs.length) (Series.firstBest e place value (stop + 1) vs).1
      (Series.firstBest e place value (stop + 1) vs).2 := by
  induction vs generalizing stop place value with
  | nil => exact h
  | cons v vs ih =>
      have hnext := h.next (hvs 0 v rfl)
      have htail : ∀ k w, vs[k]? = some w → values[stop + 1 + 1 + k]? = some w := by
        intro k w hw
        rw [Nat.add_assoc, Nat.add_comm 1 k]
        exact hvs (k + 1) w hw
      rw [Series.firstBest, List.length_cons, Nat.add_comm vs.length 1, ← Nat.add_assoc]
      split at hnext
      · next hbeats =>
          rw [if_pos hbeats]
          exact ih hnext htail
      · next hbeats =>
          rw [if_neg hbeats]
          exact ih hnext htail

/-- What is searched in a stretch is its most extreme value. -/
theorem extremeSince (hle : start ≤ stop) (hstop : stop < values.length) (y : K) :
    Best e values start stop (Series.extremeSince e values start stop y).1
      (Series.extremeSince e values start stop y).2 := by
  have hget : ∀ k, k < stop + 1 - start →
      ((values.drop start).take (stop + 1 - start))[k]? = values[start + k]? := by
    intro k hk
    rw [List.getElem?_take_of_lt hk, List.getElem?_drop]
  have hlen : ((values.drop start).take (stop + 1 - start)).length = stop + 1 - start := by
    rw [List.length_take, List.length_drop]
    omega
  unfold Series.extremeSince
  cases hstretch : (values.drop start).take (stop + 1 - start) with
  | nil =>
      rw [hstretch, List.length_nil] at hlen
      omega
  | cons v vs =>
      rw [hstretch] at hget hlen
      rw [List.length_cons] at hlen
      have hfirst : values[start]? = some v := (hget 0 (by omega)).symm
      have hbest := (Best.single (e := e) hfirst).firstBest fun k w (hw : vs[k]? = some w) => by
        have hk := (List.getElem?_eq_some_iff.mp hw).1
        rw [Nat.add_assoc, Nat.add_comm 1 k, ← hget (k + 1) (by omega)]
        exact hw
      rwa [show start + vs.length = stop by omega] at hbest

/-- If some value is less extreme than the first one, the most extreme one of the other kind comes
later. -/
theorem start_lt {w : K} {j : ℕ} (h : Best e.opposite values start stop place value)
    (hw : values[start]? = some w) (hj : start ≤ j) (hj' : j ≤ stop) (hv : values[j]? = some v)
    (hless : e.signed v < e.signed w) : start < place := by
  refine Nat.lt_of_le_of_ne h.start_le ?_
  rintro rfl
  obtain rfl : w = value := Option.some.inj (hw.symm.trans h.get)
  exact (e.signed_opposite_le_iff.mp (h.best j v hj hj' hv)).not_gt hless

/-- A search for the other kind leaves the most extreme value if one of the last two values is less
extreme. -/
theorem lt_extremeSince {y y' : K} (h : Best e values start stop place value)
    (hy : values[stop]? = some y) (hy' : values[stop + 1]? = some y')
    (hless : e.signed y < e.signed value ∨ e.signed y' < e.signed value) :
    place < (Series.extremeSince e.opposite values place (stop + 1) y').1 := by
  have hother : Best e.opposite values place (stop + 1) _ _ :=
    extremeSince (Nat.le_succ_of_le h.le_stop) (List.getElem?_eq_some_iff.mp hy').1 y'
  rcases hless with hless | hless
  · exact hother.start_lt h.get h.le_stop (Nat.le_succ stop) hy hless
  · exact hother.start_lt h.get (Nat.le_succ_of_le h.le_stop) (Nat.le_refl _) hy' hless

end Best

/-! ## Marks in turn -/

/-- Read from left to right, high and low marks come in turn. -/
def Alternate (marks : List Mark) : Prop :=
  (marks.filter Mark.isMarked).IsChain fun a b => b = a.flip

instance (marks : List Mark) : Decidable (Alternate marks) :=
  inferInstanceAs (Decidable ((marks.filter Mark.isMarked).IsChain fun a b => b = a.flip))

/-- A mark of kind `e` can come next, at `place` or later: the marks so far alternate, the last one
is of the other kind, and none is at `place` or later. -/
structure Awaits (e : Extremum) (place : ℕ) (marks : List Mark) : Prop where
  alternate : Alternate marks
  last : ∀ m ∈ (marks.filter Mark.isMarked).getLast?, m = e.opposite.mark
  plain : ∀ m ∈ marks.drop place, m = .plain

/-- Marks that are plain do not count. -/
theorem filter_isMarked_eq_nil {marks : List Mark} (h : ∀ m ∈ marks, m = .plain) :
    marks.filter Mark.isMarked = [] := by
  rw [List.filter_eq_nil_iff]
  intro m hm
  rw [h m hm]
  exact Bool.false_ne_true

namespace Awaits

variable {e : Extremum} {place place' : ℕ} {marks : List Mark}

/-- Any mark can come first. -/
theorem of_plain (h : ∀ m ∈ marks, m = .plain) : Awaits e place marks where
  alternate := by
    rw [Alternate, filter_isMarked_eq_nil h]
    exact .nil
  last := by
    rw [filter_isMarked_eq_nil h]
    rintro m ⟨⟩
  plain m hm := h m (List.mem_of_mem_drop hm)

theorem mono (h : Awaits e place marks) (hle : place ≤ place') : Awaits e place' marks where
  alternate := h.alternate
  last := h.last
  plain m hm := by
    rw [← Nat.add_sub_cancel' hle, ← List.drop_drop] at hm
    exact h.plain m (List.mem_of_mem_drop hm)

/-- After a mark, one of the other kind can come next. -/
theorem set (h : Awaits e place marks) (hlt : place < marks.length) :
    Awaits e.opposite (place + 1) (marks.set place e.mark) := by
  have hafter : ∀ m ∈ marks.drop (place + 1), m = .plain := (h.mono (Nat.le_succ place)).plain
  have hbefore : marks.filter Mark.isMarked = (marks.take place).filter Mark.isMarked := by
    conv_lhs => rw [← List.take_append_drop place marks]
    rw [List.filter_append, filter_isMarked_eq_nil h.plain, List.append_nil]
  have hfilter : (marks.set place e.mark).filter Mark.isMarked
      = marks.filter Mark.isMarked ++ [e.mark] := by
    rw [List.set_eq_take_append_cons_drop, if_pos hlt, List.filter_append,
      List.filter_cons_of_pos e.isMarked_mark, filter_isMarked_eq_nil hafter, hbefore]
  refine ⟨?_, ?_, ?_⟩
  · rw [Alternate, hfilter, List.isChain_append]
    refine ⟨h.alternate, .singleton _, fun a ha b hb => ?_⟩
    rw [h.last a ha, Extremum.mark_opposite, Mark.flip_flip]
    exact (Option.some.inj hb).symm
  · rw [hfilter, List.getLast?_concat, Extremum.opposite_opposite]
    rintro m ⟨⟩
    rfl
  · rwa [List.drop_set_of_lt (Nat.lt_succ_self place)]

end Awaits

/-! ## One step -/

variable {values : List K} {i : ℕ} {y : K} {phase : Phase K} {marks : List Mark}

/-- The momentum is used up. That is so only right after a turn. -/
def Phase.Spent : Phase K → Prop
  | .seeking _ => False
  | .tracking _ momentum _ _ => momentum ≤ 0

/-- What is known after the value `y` at `i`, and the marks so far: nothing is marked before a
direction is known; then the most extreme value since the last landmark is tracked, and its mark can
come next. What is left of the momentum after a turn is the way to that value. -/
inductive Follows (values : List K) (i : ℕ) (y : K) : Phase K → List Mark → Prop
  | seeking {momentum : K} {marks : List Mark} (plain : ∀ m ∈ marks, m = .plain) :
      Follows values i y (.seeking momentum) marks
  | tracking {e : Extremum} {momentum : K} {place : ℕ} {value : K} {marks : List Mark}
      (best : Best e values place i place value) (awaits : Awaits e place marks)
      (spent : momentum ≤ 0 → momentum = e.signed (y - value)) :
      Follows values i y (.tracking e momentum place value) marks

namespace MomentumRule

variable {rule : MomentumRule K}

theorem length_write (marks : List Mark) (landmark : Option (ℕ × Extremum)) :
    (write marks landmark).length = marks.length := by
  cases landmark with
  | none => rfl
  | some l => exact List.length_set

/-- A step before a direction is known. -/
theorem step_seeking [IsStrictOrderedRing K] (rule : MomentumRule K) (values : List K) (i : ℕ)
    (y rise momentum : K) :
    rule.step values i y rise (.seeking momentum)
      = if rule.start < |momentum + rise| then
          let e := if 0 < momentum + rise then Extremum.peak else .trough
          (.tracking e |momentum + rise| (extremeSince e values 0 i y).1
            (extremeSince e values 0 i y).2, none)
        else (.seeking (momentum + rise), none) := by
  simp only [step, Exact.magnitude_eq_abs, Exact.zero_eq]

/-- A step in a direction. -/
theorem step_tracking (rule : MomentumRule K) (values : List K) (i : ℕ) (y rise : K)
    (e : Extremum) (momentum : K) (place : ℕ) (value : K) :
    rule.step values i y rise (.tracking e momentum place value)
      = let best := if e.beats y value then (i, y) else (place, value)
        let left := momentum * (1 - rule.friction) + e.signed rise
        if left ≤ 0 then
          let other := extremeSince e.opposite values best.1 i y
          (.tracking e.opposite (e.opposite.signed (y - other.2)) other.1 other.2, some (best.1, e))
        else (.tracking e left best.1 best.2, none) := by
  unfold step
  rw [Exact.zero_eq, Exact.one_eq]

/-- The last landmark is of the kind that can come next. -/
theorem alternate_write_trailing {n : ℕ} {last : K} (h : Follows values i y phase marks)
    (hlen : marks.length = values.length) : Alternate (write marks (trailing n last phase)) := by
  cases h with
  | seeking plain =>
      rw [trailing, write, Alternate, filter_isMarked_eq_nil plain]
      exact .nil
  | tracking best awaits spent =>
      simp only [trailing]
      split
      · exact (awaits.set (hlen ▸ best.lt_length)).alternate
      · exact awaits.alternate

variable [IsStrictOrderedRing K]

/-- **A turn leaves the tracked value.** If the momentum is used up at a step, the step does not
reach beyond the tracked value, and it starts or ends short of it; unless friction has left nothing
to use up, and this step stands still. -/
theorem short_of_turn {e : Extremum} {friction momentum value y y' : K} (hfriction : 0 ≤ friction)
    (hone : friction ≤ 1) (hle : e.signed y ≤ e.signed value)
    (hspent : momentum ≤ 0 → momentum = e.signed (y - value))
    (hmove : momentum * (1 - friction) ≤ 0 → y' ≠ y)
    (hturn : momentum * (1 - friction) + e.signed (y' - y) ≤ 0) :
    e.signed y' ≤ e.signed value ∧
      (e.signed y < e.signed value ∨ e.signed y' < e.signed value) := by
  rw [Extremum.signed_sub] at hturn
  rcases lt_or_ge 0 momentum with hpos | hneg
  · -- Friction alone does not turn the momentum round, so the step goes back.
    have hleft : 0 ≤ momentum * (1 - friction) := mul_nonneg hpos.le (sub_nonneg.mpr hone)
    have hback : e.signed y' < e.signed y := by
      by_contra hge
      have hrise : 0 ≤ e.signed y' - e.signed y := sub_nonneg.mpr (not_lt.mp hge)
      have hstill : e.signed y' = e.signed y := by
        refine (sub_nonpos.mp ?_).antisymm (not_lt.mp hge)
        exact (le_add_of_nonneg_left hleft).trans hturn
      exact hmove ((le_add_of_nonneg_right hrise).trans hturn) (e.signed_inj.mp hstill)
    exact ⟨(hback.trans_le hle).le, .inr (hback.trans_le hle)⟩
  · have hnone : momentum * (1 - friction) ≤ 0 :=
      mul_nonpos_of_nonpos_of_nonneg hneg (sub_nonneg.mpr hone)
    rw [hspent hneg, Extremum.signed_sub] at hturn
    have hlost : (e.signed y - e.signed value) * friction ≤ 0 :=
      mul_nonpos_of_nonpos_of_nonneg (sub_nonpos.mpr hle) hfriction
    have hback : e.signed y' ≤ e.signed value := by
      refine sub_nonpos.mp ?_
      calc e.signed y' - e.signed value
          = (e.signed y - e.signed value) * (1 - friction) + (e.signed y' - e.signed y)
              + (e.signed y - e.signed value) * friction := by rw [mul_sub, mul_one]; abel
        _ ≤ 0 := add_nonpos hturn hlost
    refine ⟨hback, ?_⟩
    by_contra hreach
    rw [not_or, not_lt, not_lt] at hreach
    have hstill : e.signed y' = e.signed y :=
      (hback.antisymm hreach.2).trans (hle.antisymm hreach.1).symm
    exact hmove hnone (e.signed_inj.mp hstill)

/-- **A step keeps track**, and uses up the momentum only if it completes a landmark; unless the
last step did, and this one stands still. -/
theorem follows_step (hfriction : 0 ≤ rule.friction) (hlt : rule.friction < 1)
    (hstart : 0 ≤ rule.start) {y' : K} (h : Follows values i y phase marks)
    (hy : values[i]? = some y) (hy' : values[i + 1]? = some y')
    (hlen : marks.length = values.length) (hmove : phase.Spent → y' ≠ y) :
    Follows values (i + 1) y' (rule.step values (i + 1) y' (y' - y) phase).1
        (write marks (rule.step values (i + 1) y' (y' - y) phase).2) ∧
      ((rule.step values (i + 1) y' (y' - y) phase).1.Spent →
        (rule.step values (i + 1) y' (y' - y) phase).2.isSome) := by
  have hi' : i + 1 < values.length := (List.getElem?_eq_some_iff.mp hy').1
  cases h with
  | seeking plain =>
      rw [step_seeking]
      split
      · next hknown =>
          have hpos := hstart.trans_lt hknown
          exact ⟨.tracking (Best.extremeSince (Nat.zero_le _) hi' y').tail (.of_plain plain)
            fun hspent => absurd hspent hpos.not_ge, fun hspent => absurd hspent hpos.not_ge⟩
      · exact ⟨.seeking plain, False.elim⟩
  | @tracking e momentum place value _ best awaits spent =>
      have hnext := best.next hy'
      rw [step_tracking]
      dsimp only
      split
      · next hturn =>
          have hmove' : momentum * (1 - rule.friction) ≤ 0 → y' ≠ y := fun hnone =>
            hmove (nonpos_of_mul_nonpos_left hnone (sub_pos.mpr hlt))
          obtain ⟨hback, hshort⟩ := short_of_turn hfriction hlt.le
            (best.best i y best.le_stop (Nat.le_refl i) hy) spent hmove' hturn
          -- The landmark is the value tracked so far, and the search from there gets off it.
          rw [if_neg (by rw [Extremum.beats_iff]; exact hback.not_gt)]
          have hother := Best.extremeSince (e := e.opposite)
            (Nat.le_succ_of_le best.le_stop) hi' y'
          have hplace : place < marks.length := hlen ▸ best.lt_length
          have hoff := best.lt_extremeSince hy hy' hshort
          exact ⟨.tracking hother.tail ((awaits.set hplace).mono hoff) fun _ => rfl,
            fun _ => rfl⟩
      · next hgoes =>
          exact ⟨.tracking hnext.tail (awaits.mono hnext.start_le)
            fun hspent => absurd hspent hgoes, fun hspent => absurd hspent hgoes⟩

/-! ## All steps -/

/-- Points that lie one behind the other rise by the difference of their values. -/
theorem rise_of_lt {p q : K × K} (h : p.1 < q.1) : rise p q = q.2 - p.2 := by
  unfold rise
  rw [Exact.zero_eq, if_pos (sub_pos.mpr h)]

/-- **A run keeps track**, unless the series stands still right after a turn. -/
theorem follows_run (hfriction : 0 ≤ rule.friction) (hlt : rule.friction < 1)
    (hstart : 0 ≤ rule.start) {previous : K × K} {points : List (K × K)}
    (h : Follows values i previous.2 phase marks) (hlen : marks.length = values.length)
    (hx : (previous :: points).IsChain fun p q => p.1 < q.1)
    (hvalues : values.drop i = (previous :: points).map (·.2))
    (hspent : phase.Spent → values[i + 1]? ≠ values[i]?)
    (hturns : ∀ j ∈ rule.turnsFrom values (i + 1) previous points phase,
      values[j + 1]? ≠ values[j]?) :
    ∃ j y, Follows values j y (rule.run values (i + 1) previous points phase marks).1
        (rule.run values (i + 1) previous points phase marks).2 ∧
      (rule.run values (i + 1) previous points phase marks).2.length = values.length := by
  induction points generalizing i previous phase marks with
  | nil => exact ⟨i, previous.2, h, hlen⟩
  | cons point points ih =>
      obtain ⟨hrise, hx⟩ := List.isChain_cons_cons.mp hx
      have hget : ∀ k, values[i + k]? = ((previous :: point :: points).map (·.2))[k]? := by
        intro k
        rw [← hvalues, List.getElem?_drop]
      have hy : values[i]? = some previous.2 := hget 0
      have hy' : values[i + 1]? = some point.2 := hget 1
      have hdrop : values.drop (i + 1) = (point :: points).map (·.2) := by
        rw [← List.drop_drop, hvalues]
        rfl
      rw [turnsFrom, rise_of_lt hrise] at hturns
      dsimp only at hturns
      rw [run, rise_of_lt hrise]
      have hmove : phase.Spent → point.2 ≠ previous.2 := by
        intro hs heq
        exact hspent hs (by rw [hy, hy', heq])
      obtain ⟨hstep, hturned⟩ := follows_step hfriction hlt hstart h hy hy' hlen hmove
      refine ih hstep ((length_write _ _).trans hlen) hx hdrop (fun hs => ?_) fun j hj => ?_
      · refine hturns (i + 1) (List.mem_append_left _ ?_)
        rw [if_pos (hturned hs)]
        exact List.mem_singleton_self _
      · exact hturns j (List.mem_append_right _ hj)

/-- **Landmarks alternate**, unless the series stands still right after a turn. For every series of
exact numbers over increasing abscissas, every friction short of one and every threshold from zero
on, high and low marks come in turn if no value is repeated right after a turn; so they do if no
value is repeated at all. -/
theorem marks_alternate {rule : MomentumRule K} (hfriction : 0 ≤ rule.friction)
    (hlt : rule.friction < 1) (hstart : 0 ≤ rule.start) {points : List (K × K)}
    (hx : points.IsChain fun p q => p.1 < q.1)
    (hturns : ∀ i ∈ rule.turns points,
      (points.map (·.2))[i + 1]? ≠ (points.map (·.2))[i]?) :
    Alternate (rule.marks points) := by
  cases points with
  | nil => exact .nil
  | cons point points =>
      have hplain : ∀ m ∈ List.replicate (points.length + 1) Mark.plain, m = .plain :=
        fun m hm => List.eq_of_mem_replicate hm
      obtain ⟨j, y, hrun, hlen⟩ := follows_run (i := 0) hfriction hlt hstart
        (.seeking hplain) (by simp) hx rfl False.elim hturns
      exact alternate_write_trailing hrun hlen

/-- Half of the momentum is lost at every step. -/
def halving (start : ℚ) : MomentumRule ℚ := ⟨1 / 2, start⟩

/-- A series that stands still for one step on its way down. -/
def standstill : List (ℚ × ℚ) := [(0, 0), (1, 10), (2, 4), (3, 4), (4, 0), (5, 10)]

/-- **Landmarks need not alternate if the series stands still right after a turn.** At the second
point in a row with the value 4 a trough is completed that was not there, and at the next one its
mark is overwritten with that of a peak. -/
theorem marks_standstill :
    0 ≤ (halving 0).friction ∧ (halving 0).friction < 1 ∧ 0 ≤ (halving 0).start ∧
      standstill.IsChain (fun p q => p.1 < q.1) ∧
      (halving 0).marks standstill = [.plain, .high, .high, .plain, .low, .plain] ∧
      ¬Alternate ((halving 0).marks standstill) := by
  decide +kernel

/-- A series that stands still before its first turn and on its way to the third one. -/
def pausing : List (ℚ × ℚ) :=
  [(0, 0), (1, 0), (2, 6), (4, 6), (5, 10), (6, 4), (7, 7), (8, 9), (9, 9), (10, 2), (11, 5)]

/-- It turns at four points, none of which is followed by the same value. -/
theorem alternate_pausing :
    0 ≤ (halving 1).friction ∧ (halving 1).friction < 1 ∧ 0 ≤ (halving 1).start ∧
      pausing.IsChain (fun p q => p.1 < q.1) ∧ (halving 1).turns pausing = [5, 6, 9, 10] ∧
      Alternate ((halving 1).marks pausing) := by
  have hfriction : 0 ≤ (halving 1).friction := by decide +kernel
  have hlt : (halving 1).friction < 1 := by decide +kernel
  have hstart : 0 ≤ (halving 1).start := by decide +kernel
  have hx : pausing.IsChain (fun p q => p.1 < q.1) := by decide +kernel
  have hturns : (halving 1).turns pausing = [5, 6, 9, 10] := by decide +kernel
  refine ⟨hfriction, hlt, hstart, hx, hturns, marks_alternate hfriction hlt hstart hx ?_⟩
  rw [hturns]
  decide +kernel

end MomentumRule

end RideHud.Series
