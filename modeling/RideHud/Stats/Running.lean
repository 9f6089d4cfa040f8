import RideHud.Decimal
import RideHud.Scalar

/-!
# Running statistics

Count, mean, spread and range of values that arrive one at a time and are not kept: the mean moves
by a share of the distance to the new value, and the sum of squares grows by the product of the
distances before and after.
-/

namespace RideHud

open scoped Scalar

/-- What is known about the values so far. -/
structure Running (α : Type) where
  count : Nat
  /-- The mean, zero without values. -/
  mean : α
  /-- The sum of the squared distances from the mean. -/
  squares : α
  /-- The least value, zero without values. -/
  least : α
  /-- The greatest value, zero without values. -/
  greatest : α
  deriving Repr, DecidableEq

namespace Running

/-! ## Values -/

section

variable {α : Type} [Scalar α]

/-- No values. -/
def empty : Running α := ⟨0, 0, 0, 0, 0⟩

/-- One more value. -/
def push (r : Running α) (x : α) : Running α :=
  if r.count = 0 then ⟨1, x, 0, x, x⟩
  else
    let count := r.count + 1
    let before := x - r.mean
    let mean := r.mean + before / Nat.cast count
    { count
      mean
      squares := r.squares + before * (x - mean)
      least := Scalar.least r.least x
      greatest := Scalar.greatest r.greatest x }

/-- All values of a list, from the left. -/
def ofList (xs : List α) : Running α := xs.foldl push empty

/-- A value at the end of the list is pushed last. -/
theorem ofList_concat (xs : List α) (x : α) : ofList (xs ++ [x]) = (ofList xs).push x := by
  simp [ofList, List.foldl_append]

/-- The sample variance, zero for fewer than two values. -/
def variance (r : Running α) : α :=
  if r.count < 2 then 0 else r.squares / Nat.cast (r.count - 1)

end

/-- The sample standard deviation. -/
def spread {α : Type} [Elementary α] (r : Running α) : α := Elementary.sqrt r.variance

/-! ## Text -/

/-- The statistics in a line of text, with three places. -/
def text (r : Running Float) : String :=
  let f := Decimal.fixed 3
  if r.count = 0 then "N/A"
  else s!"min={f r.least}, max={f r.greatest}, mean={f r.mean}, std={f r.spread} (n={r.count})"

end Running

end RideHud
