import RideHud.Scalar

/-!
# Sides of a right triangle

One side and one angle (in radians) give another side.
-/

namespace RideHud.Triangle

variable {α : Type} [Elementary α]

/-- The side next to the angle, from the side across from it. -/
def adjacentOfOpposite (opposite angle : α) : α := opposite / Elementary.tan angle

/-- The side across from the angle, from the longest side. -/
def oppositeOfHypotenuse (hypotenuse angle : α) : α := Elementary.sin angle * hypotenuse

/-- The side next to the angle, from the longest side. -/
def adjacentOfHypotenuse (hypotenuse angle : α) : α := Elementary.cos angle * hypotenuse

end RideHud.Triangle
