import RideHud.Scalar
import RideHud.Series.Mark

/-!
# Kinds of extremum

Peaks and troughs are told apart by `Extremum.beats` only, so a detector of one kind detects the
other when the order is reversed.
-/

namespace RideHud.Series

open scoped Scalar

/-- A kind of extremum. -/
inductive Extremum where
  | peak
  | trough
  deriving Repr, DecidableEq

namespace Extremum

/-- The mark that an extremum gets. -/
def mark : Extremum → Mark
  | .peak => .high
  | .trough => .low

/-- The other kind. -/
def opposite : Extremum → Extremum
  | .peak => .trough
  | .trough => .peak

@[simp] theorem opposite_opposite (e : Extremum) : e.opposite.opposite = e := by cases e <;> rfl

/-- The other kind has the other mark. -/
theorem mark_opposite (e : Extremum) : e.opposite.mark = e.mark.flip := by cases e <;> rfl

section

variable {α : Type} [Scalar α]

/-- Whether `v` is strictly more extreme than `w`. -/
def beats : Extremum → α → α → Bool
  | .peak, v, w => decide (w < v)
  | .trough, v, w => decide (v < w)

/-- The number with its sign changed for troughs. -/
def signed : Extremum → α → α
  | .peak, x => x
  | .trough, x => -x

/-- What is more extreme of one kind is less extreme of the other. -/
theorem beats_opposite (e : Extremum) (v w : α) : e.opposite.beats v w = e.beats w v := by
  cases e <;> rfl

end

end Extremum

end RideHud.Series
