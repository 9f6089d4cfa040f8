import RideHud.Decimal
import RideHud.Draw.Glyph
import RideHud.Geometry.Triangle
import RideHud.Hud.LoadGraph
import RideHud.Hud.Tilt

/-!
# The HUD of a swing ride

The ride is drawn as a frame with two legs and a gondola that hangs from its pivot, turned by the
tilt of the current sample. Over it lies the load as a number, and beside that the graph of the
load, if the current sample comes from the recording.
-/

namespace RideHud.Swingboat

/-! ## The ride -/

/-- The number of pixels of a unit of the drawing. -/
def unit : Float := 40

/-- The height of the pivot. -/
def frameHeight : Float := 11

/-- The angle between the legs, in degrees. -/
def frameAngle : Float := 75

/-- The width of the legs. -/
def frameThickness : Float := 1.5

/-- The colour of the frame. -/
def frameColour : Colour := .ofPacked 0xffffffe5

/-- The colour of the edge of the pivot. -/
def pivotColour : Colour := .ofPacked 0x000000e5

/-- How far the gondola hangs below the pivot. -/
def gondolaHeight : Float := 10

/-- The angle between the arms, in degrees. -/
def gondolaAngle : Float := 35

/-- The width of the arms. -/
def armThickness : Float := 0.8

/-- The width of the gondola. -/
def gondolaThickness : Float := 2

/-- The colour of the gondola. -/
def gondolaColour : Colour := .ofPacked 0xff8f00e5

/-- How far a leg of a height ends beside its top, at an angle in degrees from the vertical. -/
def legOffset (height angle : Float) : Float :=
  Triangle.adjacentOfOpposite height (Elementary.radians (180 - 90 - angle))

/-- Farther than anything is drawn. -/
def far : Float := 1.0e4

/-- Draw only above a height. -/
def clipBelow (height : Float) : List Op :=
  [.rectangle (-far) (-far) (2 * far) (far + height), .apply .clip]

/-- Two lines from the pivot to both sides. -/
def legs (x y : Float) : List Op :=
  [.moveTo 0 0, .lineTo x y, .moveTo 0 0, .lineTo (-x) y, .apply .stroke]

/-- The gondola on its arms, turned by an angle. -/
def gondola (rotation : Float) : List Op :=
  let x := legOffset gondolaHeight (gondolaAngle / 2)
  [.rotate rotation,
    .paint (.solid gondolaColour),
    .lineWidth armThickness] ++
  legs x gondolaHeight ++
  [.lineWidth gondolaThickness,
    .arc 0 0 (Float.sqrt (x * x + gondolaHeight * gondolaHeight) - gondolaThickness / 2)
      (Elementary.radians (90 - gondolaAngle / 2)) (Elementary.radians (90 + gondolaAngle / 2)),
    .apply .stroke]

/-- The legs of the frame, which end at the ground. -/
def frame : List Op :=
  clipBelow frameHeight ++
  [.paint (.solid frameColour), .lineWidth frameThickness] ++
  legs (legOffset (frameHeight * 2) (frameAngle / 2)) (frameHeight * 2)

/-- The pivot. -/
def pivot : List Op :=
  [.paint (.solid frameColour),
    .lineWidth 0.2,
    .arc 0 0 1 0 Elementary.turn,
    .apply .fillPreserve,
    .paint (.solid pivotColour),
    .apply .stroke]

/-- The ride, with its pivot at the origin. -/
def ride (rotation : Float) : Sketch HudError :=
  [.saved (Sketch.calls (gondola rotation)), .saved (Sketch.calls frame)] ++ Sketch.calls pivot

/-- The turn of the gondola for a tilt, which is measured where the sensor sits. -/
def rotation (position : Position) (tilt : Float) : Float :=
  match position with
  | .back => tilt + Elementary.radians (gondolaAngle / 2)
  | .middle => tilt
  | .front => tilt - Elementary.radians (gondolaAngle / 2)

/-- The tilt of the current sample, looked up if it comes from the recording. -/
def currentTilt (tilts : Array Float) (v : View) : Except HudError Float :=
  match v.source with
  | .none => .error .noCurrentSample
  | .recorded place _ =>
    match tilts[place]? with
    | some tilt => .ok tilt
    | none => .error .noCurrentSample
  | .pushed sample => .ok sample.quat.tilt

/-- The ride in the lower right corner. -/
def content (tilts : Array Float) (v : View) (size : Float × Float) : Sketch HudError :=
  match currentTilt tilts v with
  | .error e => [.refuse e]
  | .ok tilt =>
    [.saved (
      Sketch.calls
        [.translate (size.1 - 10 * unit) (size.2 - 11.5 * unit),
          .scale v.density v.density,
          .scale unit unit] ++
      ride (rotation v.settings.swingboat.position tilt))]

/-! ## The load -/

/-- White text with a black outline, whose upper left corner is the origin. -/
def outlined (text : String) (size outline : Float) : List Op :=
  [.moveTo 0 (Glyph.extents text size).2,
    .text text size,
    .paint (.solid .white),
    .apply .fillPreserve,
    .paint (.solid .black),
    .lineWidth outline,
    .apply .stroke]

/-- The load as a number. -/
def loadText (sample : Sample Float) : String := Decimal.fixed 1 sample.load ++ "G"

/-- The place of the bucket at which the graph ends, if there is a graph. -/
def anchor? (buckets : List (Bucket Float)) (v : View) (cursor : Cursor) : Option (Nat × Cursor) := do
  let place ← v.place?
  let sample ← v.samples[place]?
  let anchor ← LoadGraph.anchor? buckets cursor sample.time
  return (anchor, ⟨sample.time, anchor⟩)

/-- The load in the upper left corner, with a graph that ends at an anchor. The anchor is searched
where the graph begins, after the load. -/
def readout (buckets : List (Bucket Float)) (v : View) (anchor : Option Nat)
    (sample : Sample Float) : Sketch HudError :=
  let display := v.settings.display
  let text := loadText sample
  let size := display.textPixels 100
  [.saved (
    Sketch.calls (
      .translate (display.pixels 10) (display.pixels 10) ::
      outlined text size (display.pixels 2)) ++
    [.saved (
      Sketch.calls
        [.translate (Glyph.extents text size).1 0,
          .scale v.textDensity v.textDensity,
          .translate 10 0] ++
      match anchor with
      | some anchor => .mark :: LoadGraph.sketch v.settings.graph buckets anchor
      | none => [])])]

/-- The load of the current sample, and where the search for the anchor of its graph ends. -/
def overlay (buckets : List (Bucket Float)) (v : View) (cursor : Cursor) :
    Sketch HudError × Cursor :=
  match v.current? with
  | none => ([.refuse .noCurrentSample], cursor)
  | some sample =>
    match anchor? buckets v cursor with
    | some (anchor, cursor) => (readout buckets v (some anchor) sample, cursor)
    | none => (readout buckets v none sample, cursor)

/-! ## Frames -/

/-- The duration of a bucket of the graph, in microseconds: thirty of them fill a second. -/
def bucketDuration : Micros := 1000000 / 30

/-- The buckets of a recording, of which an empty one has none. -/
def buckets (samples : List (Sample Float)) : Except HudError (List (Bucket Float)) :=
  if samples.isEmpty then .ok []
  else (Timeline.buckets samples bucketDuration).mapError .buckets

/-- Look at the recording: the tilt of each sample, and the buckets of the graph. -/
def prepare (v : View) : Except HudError Scene :=
  let tilts := (v.samples.map fun s => s.quat.tilt).toArray
  (buckets v.samples).map fun buckets =>
    { content := content tilts
      overlay := fun v _ cursor => overlay buckets v cursor }

end RideHud.Swingboat

namespace RideHud

/-- The strategy of the swing ride. -/
def Strategy.swingboat : Strategy where
  name := "swingboat"
  prepare := Swingboat.prepare

/-- The strategies that there are: normal frames have none. -/
def Registry.usual : Registry :=
  (Registry.register [] .booster .booster).register .swingboat .swingboat

end RideHud
