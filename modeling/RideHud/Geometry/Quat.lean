import RideHud.Geometry.Vec

/-!
# Quaternions

Orientations are quaternions, scalar part first. `Quat.rotate` is the sandwich `q * (0, v) * q̄`,
which turns `v` and stretches it by the square of the norm of `q`; `Quat.turn` is the cheaper
formula for a quaternion of norm one. `Quat.between` is the shortest rotation that takes one
direction to another.
-/

namespace RideHud

open scoped Scalar

/-- A quaternion `w + x i + y j + z k`. -/
structure Quat (α : Type) where
  w : α
  x : α
  y : α
  z : α
  deriving Repr, DecidableEq

namespace Quat

/-- The components, scalar part first. -/
def toList {α : Type} (q : Quat α) : List α := [q.w, q.x, q.y, q.z]

/-- The part without the scalar. -/
def imaginary {α : Type} (q : Quat α) : Vec α := ⟨q.x, q.y, q.z⟩

/-! ## Algebra -/

section

variable {α : Type} [Scalar α]

/-- The quaternion with no components. -/
def zero : Quat α := ⟨0, 0, 0, 0⟩

/-- The rotation that moves nothing. -/
def one : Quat α := ⟨1, 0, 0, 0⟩

/-- A scalar part and an imaginary part. -/
def ofParts (w : α) (v : Vec α) : Quat α := ⟨w, v.x, v.y, v.z⟩

/-- The product of Hamilton. -/
def mul (a b : Quat α) : Quat α where
  w := a.w * b.w - a.x * b.x - a.y * b.y - a.z * b.z
  x := a.w * b.x + a.x * b.w + a.y * b.z - a.z * b.y
  y := a.w * b.y - a.x * b.z + a.y * b.w + a.z * b.x
  z := a.w * b.z + a.x * b.y - a.y * b.x + a.z * b.w

instance : Mul (Quat α) := ⟨mul⟩

/-- The imaginary part turned round. -/
def conjugate (q : Quat α) : Quat α := ⟨q.w, -q.x, -q.y, -q.z⟩

/-- Every component divided by `k`. -/
def divide (q : Quat α) (k : α) : Quat α := ⟨q.w / k, q.x / k, q.y / k, q.z / k⟩

/-- The square of the norm; the components are paired before the pairs are added. -/
def normSq (q : Quat α) : α := (q.x * q.x + q.z * q.z) + (q.y * q.y + q.w * q.w)

/-- The multiplicative inverse, or zero for a quaternion that is (nearly) zero. -/
def inverse (q : Quat α) : Quat α :=
  if Scalar.negligible q.normSq then zero else q.conjugate.divide q.normSq

/-- The vector `v` turned by `q` and stretched by the square of its norm. -/
def rotate (q : Quat α) (v : Vec α) : Vec α := (q * ofParts 0 v * q.conjugate).imaginary

/-- The vector `v` turned by a quaternion of norm one. -/
def turn (q : Quat α) (v : Vec α) : Vec α :=
  let t := (q.imaginary.cross v).scale 2
  ((t.scale q.w).add (q.imaginary.cross t)).add v

end

/-! ## Norms and angles -/

section

variable {α : Type} [Elementary α]

/-- The norm. -/
def norm (q : Quat α) : α := Elementary.sqrt q.normSq

/-- The quaternion scaled to norm one, whatever its norm. -/
def toUnit (q : Quat α) : Quat α := q.divide q.norm

/-- The quaternion scaled to norm one: itself if it has it already, zero if it is (nearly) zero. -/
def normalized (q : Quat α) : Quat α :=
  if Scalar.negligible (q.normSq - 1) then q
  else if Scalar.negligible q.normSq then zero
  else q.divide q.norm

/-- The angle that a quaternion of norm one turns by, from zero to half a turn. -/
def angle (q : Quat α) : α :=
  Elementary.atan2 q.imaginary.norm (Scalar.magnitude q.w) * 2

/-- The rotation by an angle in degrees about an axis of any length. -/
def ofAxisAngle (axis : Vec α) (degrees : α) : Quat α :=
  let half := Elementary.radians (degrees / 2)
  let direction := axis.normalized
  normalized (ofParts (Elementary.cos half)
    ⟨direction.x * Elementary.sin half, direction.y * Elementary.sin half,
      direction.z * Elementary.sin half⟩)

/-- An axis to turn half a turn about when a direction is to be reversed: orthogonal to it, and
taken from the first coordinate axis unless the direction lies on that one. -/
def reversingAxis (direction : Vec α) : Vec α :=
  let axis := Vec.unitX.cross direction
  Vec.normalized (if Scalar.negligible axis.normSq then Vec.unitY.cross direction else axis)

/-- The shortest rotation that takes the direction of `a` to that of `b`. -/
def between (a b : Vec α) : Quat α :=
  let a' := a.normalized
  let b' := b.normalized
  let d := a'.dot b' + 1
  if Scalar.negligible d then ofParts 0 (reversingAxis a')
  else
    let s := Elementary.sqrt (2 * d)
    normalized (ofParts (s * 0.5) ((a'.cross b').divide s))

end

end Quat

end RideHud
