import RideHud.Scalar

/-!
# Fitting a line

The line through a list of points that leaves the least sum of squared vertical distances.
-/

namespace RideHud.Series

open scoped Scalar

/-- The line `y = slope * x + intercept`. -/
structure Line (α : Type) where
  slope : α
  intercept : α
  deriving Repr, DecidableEq

namespace Line

variable {α : Type} [Scalar α]

/-- The height of the line over `x`. -/
def valueAt (line : Line α) (x : α) : α := line.slope * x + line.intercept

/-- The line of least squares. Points that share one abscissa get the level line through their
mean. -/
def fit (points : List (α × α)) : Line α :=
  let n : α := Nat.cast points.length
  let meanX := Scalar.total (points.map (·.1)) / n
  let meanY := Scalar.total (points.map (·.2)) / n
  let sxx := Scalar.total (points.map fun p => (p.1 - meanX) * (p.1 - meanX))
  let sxy := Scalar.total (points.map fun p => (p.1 - meanX) * (p.2 - meanY))
  if Scalar.negligible sxx then ⟨0, meanY⟩
  else ⟨sxy / sxx, meanY - sxy / sxx * meanX⟩

end Line

end RideHud.Series
