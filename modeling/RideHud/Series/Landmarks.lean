import RideHud.Series.Extremum

/-!
# Landmarks by momentum

The steps of a series push a momentum that friction slows down. Until it is large enough to tell
which way the series goes, nothing is tracked. From then on the most extreme value in the direction
of travel is tracked; when the momentum is used up, that value becomes a landmark, the direction
turns, and tracking restarts at the landmark, since the opposite extreme may already have passed.
At the end the tracked value is a landmark too if the series has turned away from it.
-/

namespace RideHud.Series

open scoped Scalar

variable {α : Type} [Scalar α]

/-- How momentum is lost and won. -/
structure MomentumRule (α : Type) where
  /-- The share of the momentum that is lost at every step. -/
  friction : α
  /-- The momentum that has to be exceeded for a direction to be known. -/
  start : α
  deriving Repr, DecidableEq

/-- What is known after a part of the series. -/
inductive Phase (α : Type) where
  /-- No direction is known yet. -/
  | seeking (momentum : α)
  /-- The direction is known; the most extreme value in it is `value`, at `place`. -/
  | tracking (kind : Extremum) (momentum : α) (place : Nat) (value : α)
  deriving Repr, DecidableEq

/-- The first of the most extreme values, among `value` at `place` and those that follow it. -/
def firstBest (kind : Extremum) : (place : Nat) → (value : α) → (next : Nat) → List α → Nat × α
  | place, value, _, [] => (place, value)
  | place, value, next, v :: vs =>
    if kind.beats v value then firstBest kind next v (next + 1) vs
    else firstBest kind place value (next + 1) vs

/-- The first of the most extreme values from `start` to `stop`, where the value is `y`. -/
def extremeSince (kind : Extremum) (values : List α) (start stop : Nat) (y : α) : Nat × α :=
  match (values.drop start).take (stop + 1 - start) with
  | [] => (stop, y)
  | v :: vs => firstBest kind start v (start + 1) vs

/-- How far the series rises from one point to the next; nothing if it does not move on. -/
def rise (p q : α × α) : α := if 0 < q.1 - p.1 then q.2 - p.2 else 0

namespace MomentumRule

/-- The phase after one more step that ends at `i` with the value `y`, and the landmark that the
step completes. -/
def step (rule : MomentumRule α) (values : List α) (i : Nat) (y rise : α) :
    Phase α → Phase α × Option (Nat × Extremum)
  | .seeking momentum =>
    let momentum := momentum + rise
    if rule.start < Scalar.magnitude momentum then
      let kind := if 0 < momentum then Extremum.peak else .trough
      let (place, value) := extremeSince kind values 0 i y
      (.tracking kind (Scalar.magnitude momentum) place value, none)
    else (.seeking momentum, none)
  | .tracking kind momentum place value =>
    let (place, value) := if kind.beats y value then (i, y) else (place, value)
    let momentum := momentum * (1 - rule.friction) + kind.signed rise
    if momentum ≤ 0 then
      let (place', value') := extremeSince kind.opposite values place i y
      (.tracking kind.opposite (kind.opposite.signed (y - value')) place' value',
        some (place, kind))
    else (.tracking kind momentum place value, none)

/-- Put the mark of a completed landmark at its place. -/
def write (marks : List Mark) : Option (Nat × Extremum) → List Mark
  | none => marks
  | some (place, kind) => marks.set place kind.mark

/-- Go on through the points from the `i`-th, which comes after `previous`. -/
def run (rule : MomentumRule α) (values : List α) :
    (i : Nat) → (previous : α × α) → List (α × α) → Phase α → List Mark → Phase α × List Mark
  | _, _, [], phase, marks => (phase, marks)
  | i, previous, point :: points, phase, marks =>
    let (phase, landmark) := rule.step values i point.2 (rise previous point) phase
    run rule values (i + 1) point points phase (write marks landmark)

/-- The landmark that is left when the series ends with the value `y` after `n` values. -/
def trailing (n : Nat) (y : α) : Phase α → Option (Nat × Extremum)
  | .seeking _ => none
  | .tracking kind _ place value =>
    if place + 1 < n && kind.beats value y then some (place, kind) else none

/-- Mark the landmarks of a series of points, given with their abscissas. -/
def marks (rule : MomentumRule α) : List (α × α) → List Mark
  | [] => []
  | point :: points =>
    let values := (point :: points).map (·.2)
    let n := points.length + 1
    let (phase, marks) :=
      rule.run values 1 point points (.seeking 0) (List.replicate n .plain)
    write marks (trailing n (points.getLastD point).2 phase)

end MomentumRule

end RideHud.Series
