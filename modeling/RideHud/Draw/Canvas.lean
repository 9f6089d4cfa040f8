import RideHud.Draw.Colour

/-!
# Canvases

A canvas has a path that grows by lines, arcs, rectangles and texts, and a graphics state of
transform, paint, line width and clip region that can be saved and restored. Coordinates are mapped
by the transform that holds when they are added to the path. A canvas is anything that performs
these operations (`Canvas`), of which only those that use up the path can fail.
-/

namespace RideHud

/-! ## Operations -/

/-- Uses of the path. -/
inductive Painting where
  /-- Draw along the path, and drop it. -/
  | stroke
  /-- Paint what the path encloses, and drop it. -/
  | fill
  /-- Paint what the path encloses, and keep it. -/
  | fillPreserve
  /-- Draw from now on only inside the path, and drop it. -/
  | clip
  deriving Repr, DecidableEq

/-- The name of a use. -/
def Painting.name : Painting → String
  | .stroke => "Stroke"
  | .fill => "Fill"
  | .fillPreserve => "FillPreserve"
  | .clip => "Clip"

/-- An operation on a canvas. -/
inductive Op where
  /-- Make the whole surface transparent. -/
  | clear
  /-- Save the graphics state. -/
  | save
  /-- Go back to the state that was saved last, if there is one. -/
  | restore
  | translate (dx dy : Float)
  | scale (sx sy : Float)
  | rotate (radians : Float)
  /-- Start a line at a point. -/
  | moveTo (x y : Float)
  /-- Draw on to a point. -/
  | lineTo (x y : Float)
  /-- Draw along a circle, from one angle on to another in the positive direction. -/
  | arc (cx cy radius start stop : Float)
  | rectangle (x y width height : Float)
  /-- Choose what is painted with. -/
  | paint (p : Paint)
  | lineWidth (width : Float)
  /-- Use the path. -/
  | apply (p : Painting)
  /-- Draw the outlines of a text that stands on the current point. -/
  | text (text : String) (size : Float)
  deriving Repr, DecidableEq

/-! ## Failures -/

/-- Why a canvas fails. -/
inductive CanvasError where
  /-- The canvas was told to fail. -/
  | requested (p : Painting)
  /-- The colours of a gradient cannot be told. -/
  | degenerateGradient
  /-- There is no surface of that size. -/
  | noSurface (width height : Nat)
  /-- There is no clip region for the surface. -/
  | noClip
  /-- Something else. -/
  | other (reason : String)
  deriving Repr, DecidableEq

/-- What a failure says to the user. -/
def CanvasError.message : CanvasError → String
  | .requested p => s!"canvas error: {p.name} failed on request"
  | .degenerateGradient => "canvas error: degenerate gradient"
  | .noSurface width height => s!"canvas error: cannot allocate {width}x{height} surface"
  | .noClip => "canvas error: cannot allocate clip mask"
  | .other reason => s!"canvas error: {reason}"

/-- What can be drawn on. -/
class Canvas (C : Type) where
  /-- Width and height, in pixels. -/
  size : C → Float × Float
  /-- Perform an operation. -/
  perform : Op → C → Except CanvasError Unit × C

end RideHud
