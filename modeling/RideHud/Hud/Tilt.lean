import RideHud.Geometry.Quat

/-!
# Tilt

The tilt of an orientation is how far it lifts north out of the level: the angle between north and
where north goes, with the part across the view taken out but the length kept. It has the sign of
the height that north gains.
-/

namespace RideHud.Quat

open scoped Scalar

variable {α : Type} [Elementary α]

/-- Where north goes. -/
def north (q : Quat α) : Vec α := q.rotate Vec.unitY

/-- The direction with a given height that lies in the plane of north and height. -/
def risen (height : α) : Vec α :=
  ⟨0, Elementary.sqrt (Scalar.atLeast 0 (1 - height * height)), height⟩

/-- The tilt of an orientation, in radians. -/
def tilt (q : Quat α) : α :=
  let angle := Vec.unitY.angleBetween (risen q.north.z)
  if q.north.z < 0 then -angle else angle

end RideHud.Quat
