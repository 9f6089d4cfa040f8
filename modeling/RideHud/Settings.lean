import RideHud.Geometry.Quat
import RideHud.Sample

/-!
# Settings

How a recording lies over a video, and which HUD is drawn on top of it. Times are given in
milliseconds on the clock of the video, except for the window of the graph.
-/

namespace RideHud

/-! ## Choices -/

/-- What the HUD shows. -/
inductive Mode where
  | normal
  | booster
  | swingboat
  deriving Repr, DecidableEq, Inhabited

/-- The name of a mode. -/
def Mode.name : Mode → String
  | .normal => "normal"
  | .booster => "booster"
  | .swingboat => "swingboat"

/-- Where in the gondola the sensor sits. -/
inductive Position where
  | back
  | middle
  | front
  deriving Repr, DecidableEq, Inhabited

/-- The name of a position. -/
def Position.name : Position → String
  | .back => "back"
  | .middle => "middle"
  | .front => "front"

/-- How the orientation is shown. -/
inductive OrientationMode where
  | normal
  deriving Repr, DecidableEq, Inhabited

/-- The name of an orientation mode. -/
def OrientationMode.name : OrientationMode → String
  | .normal => "normal"

namespace Settings

/-! ## Sections -/

/-- The part of the video that has data. -/
structure Video where
  /-- The first millisecond. -/
  start : UInt64 := 0
  /-- The last millisecond; zero if there is no end. -/
  stop : UInt64 := 0
  deriving Repr, DecidableEq

/-- The last millisecond, if there is one. -/
def Video.last? (v : Video) : Option UInt64 := if 0 < v.stop then some v.stop else none

/-- How the sensor was used. -/
structure Data where
  /-- How far the clock of the video is ahead of that of the sensor. -/
  start : UInt64 := 0
  /-- How the sensor was mounted. -/
  mount : Quat Float := Quat.one
  /-- How strongly the pressure is smoothed: not at all for zero and one. -/
  smoothing : Float := 0
  deriving Repr, DecidableEq

/-- Whether a mount is the zero quaternion, which stands for a mount that was not given. -/
def isUnset (q : Quat Float) : Bool := q.w == 0 && q.x == 0 && q.y == 0 && q.z == 0

/-- Whether a mount turns nothing. -/
def isLevel (q : Quat Float) : Bool := q.w == 1 && q.x == 0 && q.y == 0 && q.z == 0

/-- The mount, with no rotation where none was given. -/
def effectiveMount (q : Quat Float) : Quat Float := if isUnset q then Quat.one else q

/-- Which HUD is drawn. -/
structure Hud where
  mode : Mode := .normal
  /-- The height of the ground above sea level, in metres. -/
  ground : Float := 0
  deriving Repr, DecidableEq

/-- The booster ride. -/
structure Booster where
  /-- The length of the arm, in metres. -/
  radius : Float := 0
  deriving Repr, DecidableEq

/-- The swing ride. -/
structure Swingboat where
  position : Position := .back
  deriving Repr, DecidableEq

/-- The orientation widget. -/
structure Orientation where
  mode : OrientationMode := .normal
  deriving Repr, DecidableEq

/-- The density of the display. -/
structure Display where
  /-- Dots per inch of drawings. -/
  dpi : Float := 141.21
  /-- Dots per inch of text. -/
  spi : Float := 141.21
  deriving Repr, DecidableEq

/-- The number of pixels for a length that has one pixel at 160 dots per inch. -/
def Display.pixels (d : Display) (length : Float) : Float := length * d.dpi / 160

/-- The number of pixels for a size of text that has one pixel at 160 dots per inch. -/
def Display.textPixels (d : Display) (size : Float) : Float := size * d.spi / 160

/-- The graph of the load. -/
structure Graph where
  /-- How far the graph reaches back, in microseconds. -/
  window : Micros := 10000000
  /-- The load at the upper edge. -/
  maxLoad : Float := 3
  /-- The load from which on the graph is red. -/
  redline : Float := 5
  deriving Repr, DecidableEq

end Settings

/-- All settings. -/
structure Settings where
  video : Settings.Video := {}
  data : Settings.Data := {}
  hud : Settings.Hud := {}
  booster : Settings.Booster := {}
  swingboat : Settings.Swingboat := {}
  orientation : Settings.Orientation := {}
  display : Settings.Display := {}
  graph : Settings.Graph := {}
  deriving Repr, DecidableEq

end RideHud
