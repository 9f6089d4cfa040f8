import RideHud.Draw.Arc
import RideHud.Draw.Canvas
import RideHud.Draw.Figure
import RideHud.Draw.Glyph
import RideHud.Draw.Transform

/-!
# Raster canvases

A raster canvas is a surface of pixels. It keeps what was painted since the surface was last cleared
as layers, and mixes the colour of a pixel from the layers that cover its middle, so pixels right on
an edge are not told apart. A gradient and the figures of a path are mapped to the surface when they
are set or added; the transform that holds later does not move them.
-/

namespace RideHud

/-! ## Pixels -/

/-- A pixel, in bytes. -/
structure Pixel where
  red : Nat := 0
  green : Nat := 0
  blue : Nat := 0
  alpha : Nat := 0
  deriving Repr, DecidableEq

namespace Pixel

/-- The bytes, in order. -/
def toList (p : Pixel) : List Nat := [p.red, p.green, p.blue, p.alpha]

/-- The byte nearest to a share, for shares outside of zero and one the byte of the nearest end. -/
def byte (x : Float) : Nat := (Scalar.clamp 0 1 x * 255).round.toUInt8.toNat

/-- The pixel of a colour. -/
def ofColour (c : Colour) : Pixel := ⟨byte c.red, byte c.green, byte c.blue, byte c.alpha⟩

/-- Apply a function to the light of a pixel, not to its alpha. -/
def mapLight (f : Nat → Nat) (p : Pixel) : Pixel :=
  { p with red := f p.red, green := f p.green, blue := f p.blue }

/-- A byte times another one as a share, to the nearest byte. -/
def scaled (c share : Nat) : Nat := (2 * c * share + 255) / 510

/-- A byte times another one as a share, cut down in steps of 256: off by one byte at most. -/
def roughlyScaled (c share : Nat) : Nat := (c * share + 255) / 256

/-- The colour of a pixel that adds some light to a surface. -/
def straight (p : Pixel) : Pixel :=
  let share := p.alpha.toFloat / 255
  p.mapLight fun c => (c.toFloat / share + 0.5).toUInt8.toNat

/-- Light on top of other light. -/
def atop (top bottom : Pixel) : Pixel :=
  let below (c : Nat) : Nat := roughlyScaled c (255 - top.alpha)
  ⟨top.red + below bottom.red, top.green + below bottom.green, top.blue + below bottom.blue,
    top.alpha + below bottom.alpha⟩

end Pixel

/-! ## Ink -/

/-- Paint that is fixed to the surface. -/
inductive Ink where
  | solid (p : Pixel)
  | linear (start stop : Point) (stops : List (Float × Pixel))
  deriving Repr

namespace Ink

/-- The length of gradients that have only their last colour. -/
def shortest : Float := 1 / 32768

/-- The ink that can be painted with. A gradient must have colours, of which a single one is enough,
and a length. -/
def ready? : Ink → Option Ink
  | .solid p => some (.solid p)
  | .linear start stop stops =>
    match stops with
    | [] => none
    | [s] => some (.solid s.2)
    | s :: _ =>
      let length := (stop.sub start).length
      if !length.isFinite then none
      else if length ≤ shortest then some (.solid (stops.getLastD s).2)
      else some (.linear start stop stops)

/-- The byte that is a share of the way from one to another. -/
def between (share : Float) (a b : Nat) : Nat :=
  (a.toFloat + share * (b.toFloat - a.toFloat)).round.toUInt8.toNat

/-- The colour at a place of a gradient, after a stop. -/
def colourAfter (x : Float) (before : Float × Pixel) : List (Float × Pixel) → Pixel
  | [] => before.2
  | next :: stops =>
    if x < next.1 then
      let share := if next.1 ≤ before.1 then 1 else (x - before.1) / (next.1 - before.1)
      ⟨between share before.2.red next.2.red, between share before.2.green next.2.green,
        between share before.2.blue next.2.blue, between share before.2.alpha next.2.alpha⟩
    else colourAfter x next stops

/-- The colour at a point. -/
def colourAt (p : Point) : Ink → Pixel
  | .solid c => c
  | .linear start stop stops =>
    let d := stop.sub start
    let x := (p.sub start).dot d / d.dot d
    match stops with
    | [] => {}
    | first :: rest => if x < first.1 then first.2 else colourAfter x first rest

/-- The light that ink adds to a surface at a point, which is less the less it hides. -/
def lightAt (p : Point) (ink : Ink) : Pixel :=
  let c := ink.colourAt p
  match ink with
  | .solid _ => c.mapLight fun x => Pixel.scaled x c.alpha
  | .linear _ _ _ => c.mapLight fun x => Pixel.roughlyScaled x c.alpha

end Ink

/-! ## Layers -/

/-- What is painted at once. -/
structure Layer where
  figure : Figure
  /-- The width of the pen, if only the outline is painted. -/
  pen : Option Float
  ink : Ink
  /-- The figures inside of all of which it is painted. -/
  clip : List Figure
  deriving Repr

/-- Whether a layer covers a point. -/
def Layer.covers (layer : Layer) (p : Point) : Bool :=
  (match layer.pen with
    | some width => layer.figure.penCovers width p
    | none => layer.figure.encloses p) &&
    layer.clip.all (·.encloses p)

/-! ## Canvases -/

namespace Raster

/-- What can be saved and restored. -/
structure Graphics where
  transform : Transform := .identity
  ink : Ink := .solid ⟨0, 0, 0, 255⟩
  lineWidth : Float := 2
  /-- The figures inside of all of which things are drawn. -/
  clip : List Figure := []

end Raster

/-- A surface, and how it is drawn on. -/
structure Raster where
  width : Nat
  height : Nat
  /-- What was painted, the newest first. -/
  layers : List Layer := []
  graphics : Raster.Graphics := {}
  /-- The saved states, the newest first. -/
  stack : List Raster.Graphics := []
  path : Array Segment := #[]
  /-- The current point, before it is mapped to the surface. -/
  current : Option Point := none

namespace Raster

/-- The bytes of a row of a surface must be fewer. -/
def rowLimit : Nat := 2147483648

/-- An empty surface. -/
def make (width height : Nat) : Except CanvasError Raster :=
  if width = 0 || height = 0 || rowLimit ≤ 4 * width then .error (.noSurface width height)
  else .ok { width := width, height := height }

/-! ### The path -/

/-- Start a line at a point. -/
def moveTo (r : Raster) (p : Point) : Raster :=
  { r with path := r.path.push (.move (r.graphics.transform.apply p.1 p.2)), current := some p }

/-- Draw on to a point. -/
def lineTo (r : Raster) (p : Point) : Raster :=
  if r.current.isNone then r.moveTo p
  else
    { r with path := r.path.push (.line (r.graphics.transform.apply p.1 p.2)), current := some p }

/-- Add a closed rectangle. -/
def rectangle (r : Raster) (x y width height : Float) : Raster :=
  let r := r.moveTo (x, y)
  let r := r.lineTo (x + width, y)
  let r := r.lineTo (x + width, y + height)
  let r := r.lineTo (x, y + height)
  { r with path := r.path.push .close }

/-- Add the outlines of a text that stands on the current point. -/
def text (r : Raster) (text : String) (size : Float) : Raster :=
  let origin := r.current.getD (0, 0)
  let r := (Glyph.boxes origin text size).foldl (fun r b => r.rectangle b.x b.y b.width b.height) r
  r.moveTo (Glyph.following origin text size)

/-- The canvas without its path. -/
def dropPath (r : Raster) : Raster := { r with path := #[], current := none }

/-! ### Painting -/

/-- Paint a figure. -/
def paintFigure (r : Raster) (pen : Option Float) (figure : Figure) :
    Except CanvasError Unit × Raster :=
  match r.graphics.ink.ready? with
  | none => (.error .degenerateGradient, r)
  | some ink =>
    (.ok (), { r with layers := ⟨figure, pen, ink, r.graphics.clip⟩ :: r.layers })

/-- Paint the figure of the path, if it has one. -/
def paintPath (r : Raster) (pen : Option Float) (path : Array Segment) :
    Except CanvasError Unit × Raster :=
  match Figure.ofPath? path.toList with
  | none => (.ok (), r)
  | some figure => r.paintFigure pen figure

/-- Draw from now on only inside a figure too, or nowhere if there is none. A first region and one
that is nowhere are made for the surface, which must have pixels; the old region is given up before. -/
def clipTo (r : Raster) (figure : Option Figure) : Except CanvasError Unit × Raster :=
  let narrow (clip : List Figure) : Raster := { r with graphics := { r.graphics with clip := clip } }
  if (r.graphics.clip.isEmpty || figure.isNone) && (r.width = 0 || r.height = 0) then
    (.error .noClip, narrow [])
  else (.ok (), narrow (figure.getD {} :: r.graphics.clip))

/-- Use the path. -/
def apply (r : Raster) : Painting → Except CanvasError Unit × Raster
  | .stroke =>
    let width := r.graphics.lineWidth * r.graphics.transform.lengthScale
    r.dropPath.paintPath (some width.toFloat32.toFloat) r.path
  | .fill => r.dropPath.paintPath none r.path
  | .fillPreserve => r.paintPath none r.path
  | .clip => r.dropPath.clipTo (Figure.ofPath? r.path.toList)

/-- Fix paint to the surface. -/
def ink (t : Transform) : Paint → Ink
  | .solid c => .solid (.ofColour c)
  | .linear start stop stops =>
    .linear (t.apply start.1 start.2) (t.apply stop.1 stop.2)
      (stops.map fun s => (Scalar.clamp 0 1 s.offset, .ofColour s.colour))

/-- The canvas with another graphics state. -/
def mapGraphics (r : Raster) (f : Graphics → Graphics) : Raster :=
  { r with graphics := f r.graphics }

/-- The canvas with another transform. -/
def mapTransform (r : Raster) (f : Transform → Transform) : Raster :=
  r.mapGraphics fun g => { g with transform := f g.transform }

/-- Perform an operation that cannot fail. -/
def change (r : Raster) : Op → Raster
  | .clear => { r with layers := [] }
  | .save => { r with stack := r.graphics :: r.stack }
  | .restore =>
    match r.stack with
    | [] => r
    | g :: stack => { r with graphics := g, stack := stack }
  | .translate dx dy => r.mapTransform (·.translate dx dy)
  | .scale sx sy => r.mapTransform (·.scale sx sy)
  | .rotate radians => r.mapTransform (·.rotate radians)
  | .moveTo x y => r.moveTo (x, y)
  | .lineTo x y => r.lineTo (x, y)
  | .arc cx cy radius start stop => (Arc.points cx cy radius start stop).foldl lineTo r
  | .rectangle x y width height => r.rectangle x y width height
  | .paint p => r.mapGraphics fun g => { g with ink := ink g.transform p }
  | .lineWidth width => r.mapGraphics fun g => { g with lineWidth := width }
  | .text t size => r.text t size
  | .apply _ => r

/-- Perform an operation. -/
def perform (op : Op) (r : Raster) : Except CanvasError Unit × Raster :=
  match op with
  | .apply p => r.apply p
  | op => (.ok (), r.change op)

instance : Canvas Raster where
  size r := (r.width.toFloat, r.height.toFloat)
  perform := perform

/-! ### Pixels -/

/-- A pixel, if it is on the surface. -/
def pixel? (r : Raster) (x y : Nat) : Option Pixel :=
  if x < r.width && y < r.height then
    let p : Point := (x.toFloat + 0.5, y.toFloat + 0.5)
    let light := (r.layers.filter (·.covers p)).foldr
      (fun layer below => (layer.ink.lightAt p).atop below) {}
    some light.straight
  else none

/-- The number of bytes of all pixels. -/
def byteCount (r : Raster) : Nat := 4 * r.width * r.height

end Raster

end RideHud
