import RideHud.Scalar

/-!
# Mean and spread

The arithmetic mean and the population standard deviation of a list. Both take the values from
the left. The guarded forms `mean?` and `spread?` refuse an empty list.
-/

namespace RideHud.Series

open scoped Scalar

/-- There was nothing to take the mean of. -/
inductive MeanError where
  | noData
  deriving Repr, DecidableEq

/-- What an error says to the user. -/
def MeanError.message : MeanError → String
  | .noData => "invalid argument 'data': mean of empty slice"

/-- The sum divided by the length. -/
def mean {α : Type} [Scalar α] (xs : List α) : α := Scalar.total xs / Nat.cast xs.length

/-- The mean square of the distances from the mean. -/
def variance {α : Type} [Scalar α] (xs : List α) : α :=
  let m := mean xs
  Scalar.total (xs.map fun x => (x - m) * (x - m)) / Nat.cast xs.length

/-- The root of the variance. -/
def spread {α : Type} [Elementary α] (xs : List α) : α := Elementary.sqrt (variance xs)

/-- The mean, if there is one. -/
def mean? {α : Type} [Scalar α] (xs : List α) : Except MeanError α :=
  if xs.isEmpty then .error .noData else .ok (mean xs)

/-- The spread, if there is one. -/
def spread? {α : Type} [Elementary α] (xs : List α) : Except MeanError α :=
  if xs.isEmpty then .error .noData else .ok (spread xs)

end RideHud.Series
