/-!
# The numbers readings are computed in

Every numerical algorithm of the library is written once, over any `Scalar`, and runs on `Float`.
The order of operations is part of each definition, so one text has a rounded reading over
`Float` and an exact one over any ordered field.

Main definitions: `Scalar` (field operations, order, literals), `Elementary` (roots, angles and
powers on top of it), `negligible` (the tolerance every degenerate case is judged by) and `total`
(the sum of a list, from the left).
-/

namespace RideHud

/-! ## Arithmetic and order -/

/-- Numbers with field operations, a decidable order and decimal literals. -/
class Scalar (α : Type) extends Add α, Sub α, Mul α, Div α, Neg α, LT α, LE α, NatCast α,
    OfScientific α where
  /-- The strict order can be tested. -/
  decLt : DecidableLT α
  /-- The order can be tested. -/
  decLe : DecidableLE α

attribute [reducible, instance] Scalar.decLt Scalar.decLe

namespace Scalar

variable {α : Type} [Scalar α]

/-- Numerals are casts of natural numbers. -/
scoped instance (priority := low) instOfNat (n : Nat) : OfNat α n := ⟨Nat.cast n⟩

/-- The size of a number, sign dropped. -/
def magnitude (x : α) : α := if x < 0 then -x else x

/-- The larger of `x` and the floor `lo`; a number that does not compare counts as too small. -/
def atLeast (lo x : α) : α := if lo < x then x else lo

/-- The nearest number to `x` between `lo` and `hi`; a number that does not compare is kept. -/
def clamp (lo hi x : α) : α := if x < lo then lo else if hi < x then hi else x

/-- The smaller of two numbers; a number that does not compare with itself gives way. -/
def least (a b : α) : α := if b < a then b else if a ≤ a then a else b

/-- The larger of two numbers; a number that does not compare with itself gives way. -/
def greatest (a b : α) : α := if a < b then b else if a ≤ a then a else b

/-- Within `1e-12` of zero. -/
def negligible (x : α) : Bool := decide (magnitude x ≤ 1e-12)

/-- The sum of a list, added up from the left. -/
def total (xs : List α) : α := xs.foldl (· + ·) 0

@[simp] theorem total_nil : total ([] : List α) = 0 := rfl

/-- The last summand is added last. -/
theorem total_concat (xs : List α) (x : α) : total (xs ++ [x]) = total xs + x := by
  simp [total, List.foldl_append]

end Scalar

/-! ## Roots, angles and powers -/

/-- Scalars with the elementary functions that geometry needs. -/
class Elementary (α : Type) extends Scalar α where
  /-- Half a turn, in radians. -/
  pi : α
  sqrt : α → α
  sin : α → α
  cos : α → α
  tan : α → α
  acos : α → α
  /-- The angle of the point whose second coordinate comes first. -/
  atan2 : α → α → α
  /-- The least natural number that is not smaller. -/
  ceil : α → Nat

namespace Elementary

variable {α : Type} [Elementary α]

open scoped Scalar

/-- A full turn, in radians. -/
def turn : α := 2 * pi

/-- Radians of an angle given in degrees. -/
def radians (degrees : α) : α := degrees * (pi / 180)

/-- Degrees of an angle given in radians. -/
def degrees (radians : α) : α := radians * 180 / pi

end Elementary

/-! ## Binary64 -/

instance : Scalar Float where
  natCast := Float.ofNat
  decLt := inferInstance
  decLe := inferInstance

instance : Elementary Float where
  pi := 3.141592653589793
  sqrt := Float.sqrt
  sin := Float.sin
  cos := Float.cos
  tan := Float.tan
  acos := Float.acos
  atan2 := Float.atan2
  ceil x := x.ceil.toUInt64.toNat

end RideHud
