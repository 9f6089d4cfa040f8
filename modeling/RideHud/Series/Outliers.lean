import RideHud.Series.Mark
import RideHud.Series.Mean

/-!
# Outliers against a trailing window

A value is marked if it lies further from the mean of the last `lag` values than a multiple of
their spread. The window does not take a marked value as it is, but mixed with the value before it,
so an outlier need not spoil what later values are compared with. The values that windows take are
not kept: from one value to the next, `marksAfter` carries the window alone.
-/

namespace RideHud.Series

open scoped Scalar

variable {α : Type} [Elementary α]

/-- How a series is searched for outliers. -/
structure OutlierRule (α : Type) where
  /-- How many values the window has. -/
  lag : Nat
  /-- How many spreads off the mean a value has to lie. -/
  threshold : α
  /-- How much of a marked value goes into the window. -/
  influence : α
  deriving Repr, DecidableEq

/-- Why a rule cannot be used. -/
inductive OutlierRule.Error where
  /-- The window has no values. -/
  | noLag
  deriving Repr, DecidableEq

/-- What an error says to the user. -/
def OutlierRule.Error.message : OutlierRule.Error → String
  | .noLag => "invalid argument 'lag': lag must be > 0"

namespace OutlierRule

/-- The mark for the value `y` after the values of a window. -/
def judge (rule : OutlierRule α) (window : List α) (y : α) : Mark :=
  let expected := mean window
  if rule.threshold * spread window < Scalar.magnitude (y - expected) then
    if expected < y then .high else .low
  else .plain

/-- What the window takes for the value `y`, whose mark is `mark`, when `previous` was taken
last. -/
def filtered (rule : OutlierRule α) (previous y : α) (mark : Mark) : α :=
  if mark.isMarked then rule.influence * y + (1 - rule.influence) * previous else y

/-- The marks of values that follow a window, oldest value first. -/
def marksAfter (rule : OutlierRule α) : (window : List α) → (values : List α) → List Mark
  | _, [] => []
  | window, y :: ys =>
    let mark := rule.judge window y
    let taken := rule.filtered (window.getLastD y) y mark
    mark :: marksAfter rule (window.tail ++ [taken]) ys

/-- The marks of a series: none for the first `lag` values, which fill the window. -/
def marks? (rule : OutlierRule α) (values : List α) : Except Error (List Mark) :=
  if rule.lag = 0 then .error .noLag
  else
    let window := values.take rule.lag
    .ok (window.map (fun _ => .plain) ++ rule.marksAfter window (values.drop rule.lag))

end OutlierRule

end RideHud.Series
