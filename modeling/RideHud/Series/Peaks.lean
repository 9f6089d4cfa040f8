import RideHud.Series.Extremum
import RideHud.Series.Noise
import RideHud.Workspace

/-!
# Extremes at every scale

A series of `n` values is compared with itself at distances `1, 2, …`, as far as half its length.
The scalogram has one row per distance and one column per value: zero where the value beats both
neighbours at that distance, and noise from one to two everywhere else, so that a row with many
extremes has a small sum. The distance with the least sum is the scale of the series, and a value
is marked if its column does not vary down to that scale: as the noise varies, that means the value
beats its neighbours at every distance up to the scale.
-/

namespace RideHud.Series

open scoped Scalar

variable {α : Type} [Scalar α]

/-- Whether the value at `i` beats those `k` places before and after it, both being there. -/
def isExtreme (kind : Extremum) (values : Array α) (k i : Nat) : Bool :=
  match values[i - k]?, values[i]?, values[i + k]? with
  | some left, some v, some right => k ≤ i && kind.beats v left && kind.beats v right
  | _, _, _ => false

/-- The scalogram of a series. -/
structure Scalogram (α : Type) where
  kind : Extremum
  values : Array α
  noise : Array UInt32

namespace Scalogram

/-- The number of distances that are looked at. -/
def height (n : Nat) : Nat := (n + 1) / 2 - 1

/-- The size of an entry. -/
def cellBytes : Nat := 8

/-- The scalogram of some values, if there is room for it. -/
def of? (kind : Extremum) (values : Array α) : Except Workspace.Shortage (Scalogram α) := do
  let size := height values.size * values.size
  Workspace.reserve size cellBytes
  return ⟨kind, values, Noise.draws size⟩

/-- A number from one to two for a draw. -/
def ofDraw (draw : UInt32) : α := Nat.cast draw.toNat * (1 / 4294967296) + 1

/-- The entry for the value at `i` and the distance `row + 1`. -/
def cell (s : Scalogram α) (row i : Nat) : α :=
  if isExtreme s.kind s.values (row + 1) i then 0
  else ofDraw (s.noise.getD (row * s.values.size + i) 0)

/-- The sum of the entries for one distance. -/
def rowSum (s : Scalogram α) (row : Nat) : α :=
  Scalar.total ((List.range s.values.size).map (s.cell row))

/-- The entries for the value at `i` at the first `scale` distances. -/
def column (s : Scalogram α) (scale i : Nat) : List α := (List.range scale).map (s.cell · i)

/-- Take the place `i` if its sum `x` is below the best so far. -/
def keepLeast (best : Option (Nat × α)) (x : α) (i : Nat) : Option (Nat × α) :=
  match best with
  | none => some (i, x)
  | some (j, y) => if x < y then some (i, x) else some (j, y)

/-- The distance whose row has the least sum, the shortest of several. -/
def scale (s : Scalogram α) : Nat :=
  let best := (List.range (height s.values.size)).foldl
    (fun best row => keepLeast best (s.rowSum row) row) none
  match best with
  | none => 1
  | some (row, _) => row + 1

/-- Whether a column does not vary: the distances from its mean add up to nothing. A single entry
has no variation to speak of, and does not count. -/
def isConstant (column : List α) : Bool :=
  let mean := Scalar.total column / Nat.cast column.length
  let deviation := Scalar.total (column.map fun c => Scalar.magnitude (c - mean))
  2 ≤ column.length && Scalar.negligible (1 / (Nat.cast column.length - 1) * deviation)

/-- The values whose columns do not vary down to the scale of the series. -/
def marks (s : Scalogram α) : List Mark :=
  let scale := s.scale
  (List.range s.values.size).map fun i =>
    if isConstant (s.column scale i) then s.kind.mark else .plain

end Scalogram

/-- Mark the values that are extreme at every distance up to the scale of the series. Fewer than
three values have no distance to be compared at. -/
def extremes (kind : Extremum) (values : List α) : Except Workspace.Shortage (List Mark) :=
  let values := values.toArray
  if Scalogram.height values.size = 0 then .ok (List.replicate values.size .plain)
  else (Scalogram.of? kind values).map Scalogram.marks

end RideHud.Series
