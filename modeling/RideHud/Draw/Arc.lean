import RideHud.Scalar

/-!
# Arcs as lines

An arc runs in the positive direction: an end that lies before the start is moved on by whole turns
until it does not. The arc is then drawn through points at equal angles, of which a full turn has at
least `Arc.perTurn`.
-/

namespace RideHud.Arc

open scoped Scalar

variable {α : Type} [Elementary α]

/-- The number of pieces of a full turn. -/
def perTurn : Nat := 128

/-- Move `stop` on by at most `turns` turns, until it is not before `start`. -/
def unwound (start : α) : Nat → α → α
  | 0, stop => stop
  | turns + 1, stop =>
    if stop < start then unwound start turns (stop + Elementary.turn) else stop

/-- The number of turns that surely bring `stop` to `start`. -/
def enough (start stop : α) : Nat := Elementary.ceil ((start - stop) / Elementary.turn) + 1

/-- The first angle, whole turns from `stop`, that is not before `start`. -/
def last (start stop : α) : α := unwound start (enough start stop) stop

/-- The number of pieces of an arc between two angles. -/
def pieces (start last : α) : Nat :=
  max 1 (Elementary.ceil ((last - start) / (Elementary.turn / Nat.cast perTurn)))

/-- The angles of the points of an arc. -/
def angles (start stop : α) : List α :=
  let last := last start stop
  let n := pieces start last
  (List.range (n + 1)).map fun i => start + (last - start) * Nat.cast i / Nat.cast n

/-- The points of an arc. -/
def points (cx cy radius start stop : α) : List (α × α) :=
  (angles start stop).map fun a =>
    (cx + radius * Elementary.cos a, cy + radius * Elementary.sin a)

end RideHud.Arc
