/-!
# Transforms

A transform maps points of a drawing to points of a surface. Its numbers and the points that it makes
have single precision, so far-away drawings lose their details and very far ones their points.
-/

namespace RideHud

/-- A linear map followed by a shift: `x` goes to `sx * x + kx * y + tx` and `y` to
`ky * x + sy * y + ty`. -/
structure Transform where
  sx : Float32 := 1
  kx : Float32 := 0
  ky : Float32 := 0
  sy : Float32 := 1
  tx : Float32 := 0
  ty : Float32 := 0

namespace Transform

/-- The transform that changes nothing. -/
def identity : Transform := {}

/-- Whether a transform changes nothing. -/
def isIdentity (t : Transform) : Bool :=
  t.sx == 1 && t.kx == 0 && t.ky == 0 && t.sy == 1 && t.tx == 0 && t.ty == 0

/-- Whether a transform turns or slants. -/
def isSkewed (t : Transform) : Bool := t.kx != 0 || t.ky != 0

/-- The sum of two products, rounded once. -/
def pair (a b c d : Float32) : Float32 :=
  (a.toFloat * b.toFloat + c.toFloat * d.toFloat).toFloat32

/-- First `b`, then `a`. -/
def after (a b : Transform) : Transform :=
  if a.isIdentity then b
  else if b.isIdentity then a
  else if !a.isSkewed && !b.isSkewed then
    { sx := a.sx * b.sx
      sy := a.sy * b.sy
      tx := a.sx * b.tx + a.tx
      ty := a.sy * b.ty + a.ty }
  else
    { sx := pair a.sx b.sx a.kx b.ky
      ky := pair a.ky b.sx a.sy b.ky
      kx := pair a.sx b.kx a.kx b.sy
      sy := pair a.ky b.kx a.sy b.sy
      tx := pair a.sx b.tx a.kx b.ty + a.tx
      ty := pair a.ky b.tx a.sy b.ty + a.ty }

/-- Shift the drawing first. -/
def translate (t : Transform) (dx dy : Float) : Transform :=
  t.after { tx := dx.toFloat32, ty := dy.toFloat32 }

/-- Stretch the drawing first. -/
def scale (t : Transform) (sx sy : Float) : Transform :=
  t.after { sx := sx.toFloat32, sy := sy.toFloat32 }

/-- Turn the drawing first. -/
def rotate (t : Transform) (radians : Float) : Transform :=
  let angle := (radians * (180 / 3.141592653589793)).toFloat32 * 0.017453292519943295
  t.after { sx := angle.cos, kx := -angle.sin, ky := angle.sin, sy := angle.cos }

/-- Where a point comes to lie. -/
def apply (t : Transform) (x y : Float) : Float × Float :=
  let x := x.toFloat32
  let y := y.toFloat32
  if t.isSkewed then
    ((x * t.sx + y * t.kx + t.tx).toFloat, (x * t.ky + y * t.sy + t.ty).toFloat)
  else if t.sx == 1 && t.sy == 1 then
    if t.tx == 0 && t.ty == 0 then (x.toFloat, y.toFloat)
    else ((x + t.tx).toFloat, (y + t.ty).toFloat)
  else ((x * t.sx + t.tx).toFloat, (y * t.sy + t.ty).toFloat)

/-- How much lengths grow, on average over all directions. -/
def lengthScale (t : Transform) : Float := (t.sx * t.sy - t.kx * t.ky).toFloat.abs.sqrt

end Transform

end RideHud
