import RideHud.Scalar

/-!
# Vectors in space

Components are combined from left to right, as the names read. Lengths near one count as one and
lengths near zero as zero (`Vec.normalized`), so a degenerate direction is the zero vector.
-/

namespace RideHud

open scoped Scalar

/-- A vector with three components. -/
structure Vec (α : Type) where
  x : α
  y : α
  z : α
  deriving Repr, DecidableEq

namespace Vec

/-- The components, in order. -/
def toList {α : Type} (v : Vec α) : List α := [v.x, v.y, v.z]

/-- Apply a function to each component. -/
def map {α β : Type} (f : α → β) (v : Vec α) : Vec β := ⟨f v.x, f v.y, f v.z⟩

section

variable {α : Type} [Scalar α]

/-- The vector without length. -/
def zero : Vec α := ⟨0, 0, 0⟩

/-- The unit vector along the first axis. -/
def unitX : Vec α := ⟨1, 0, 0⟩

/-- The unit vector along the second axis; the world's north. -/
def unitY : Vec α := ⟨0, 1, 0⟩

/-- Component by component. -/
def add (a b : Vec α) : Vec α := ⟨a.x + b.x, a.y + b.y, a.z + b.z⟩

/-- Every component times `k`. -/
def scale (v : Vec α) (k : α) : Vec α := ⟨v.x * k, v.y * k, v.z * k⟩

/-- Every component divided by `k`. -/
def divide (v : Vec α) (k : α) : Vec α := ⟨v.x / k, v.y / k, v.z / k⟩

/-- The inner product. -/
def dot (a b : Vec α) : α := a.x * b.x + a.y * b.y + a.z * b.z

/-- The outer product. -/
def cross (a b : Vec α) : Vec α :=
  ⟨a.y * b.z - a.z * b.y, a.z * b.x - a.x * b.z, a.x * b.y - a.y * b.x⟩

/-- The square of the length. -/
def normSq (v : Vec α) : α := v.dot v

end

section

variable {α : Type} [Elementary α]

/-- The length. -/
def norm (v : Vec α) : α := Elementary.sqrt v.normSq

/-- The direction of `v`: itself if it already has length one, zero if it has none. -/
def normalized (v : Vec α) : Vec α :=
  if Scalar.negligible (v.normSq - 1) then v
  else if Scalar.negligible v.normSq then zero
  else v.divide (Elementary.sqrt v.normSq)

/-- The angle between two directions, from zero to half a turn. -/
def angleBetween (a b : Vec α) : α :=
  Elementary.acos (Scalar.clamp (-1) 1 (a.dot b / (a.norm * b.norm)))

end

end Vec

end RideHud
