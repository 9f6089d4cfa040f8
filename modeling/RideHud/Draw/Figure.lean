/-!
# Figures

A figure is a path on a surface, made of contours. It covers the points around which its contours
wind (`Figure.encloses`), and its outline of some width covers the points that the pen passes
(`Figure.penCovers`). The pen ends bluntly, and its corners are mitred unless they are very sharp.
-/

namespace RideHud

/-- A point of a surface. -/
abbrev Point := Float × Float

namespace Point

/-- Coordinate by coordinate. -/
def add (a b : Point) : Point := (a.1 + b.1, a.2 + b.2)

/-- The way from `b` to `a`. -/
def sub (a b : Point) : Point := (a.1 - b.1, a.2 - b.2)

/-- Every coordinate times `k`. -/
def scale (a : Point) (k : Float) : Point := (k * a.1, k * a.2)

/-- The inner product. -/
def dot (a b : Point) : Float := a.1 * b.1 + a.2 * b.2

/-- Positive if the second axis is on the way from `a` to `b`. -/
def cross (a b : Point) : Float := a.1 * b.2 - a.2 * b.1

/-- The distance from the origin. -/
def length (a : Point) : Float := (dot a a).sqrt

end Point

/-! ## Paths -/

/-- A step of a path. -/
inductive Segment where
  | move (p : Point)
  | line (p : Point)
  /-- Go back to where the contour began. -/
  | close
  deriving Repr

/-- A line through points. -/
structure Contour where
  start : Point
  /-- The points after the start. -/
  rest : List Point := []
  closed : Bool := false
  deriving Repr

namespace Contour

/-- The points, in order. -/
def points (c : Contour) : List Point := c.start :: c.rest

/-- The points, and the first one again if the contour is closed. -/
def track (c : Contour) : List Point := if c.closed then c.points ++ [c.start] else c.points

/-- Whether nothing is drawn yet. -/
def isBare (c : Contour) : Bool := c.rest.isEmpty && !c.closed

end Contour

/-- The least and the greatest of some numbers. -/
structure Extent where
  least : Float := 0
  greatest : Float := 0
  deriving Repr

namespace Extent

/-- The extent of numbers, of which there should be one at least. -/
def ofList : List Float → Extent
  | [] => {}
  | x :: xs => ⟨xs.foldl min x, xs.foldl max x⟩

/-- The difference between the least and the greatest. -/
def span (e : Extent) : Float := e.greatest - e.least

end Extent

/-- Contours, and how far they extend along both axes. -/
structure Figure where
  contours : List Contour := []
  across : Extent := {}
  down : Extent := {}
  deriving Repr

namespace Figure

/-- Add a step to contours, of which the newest comes first. A move right after a move replaces it,
and what follows a closed contour without a move starts where that contour did. -/
def step (contours : List Contour) (s : Segment) : List Contour :=
  match contours, s with
  | [], .move p => [{ start := p }]
  | [], .line p => [{ start := (0, 0), rest := [p] }]
  | [], .close => []
  | c :: cs, .move p => if c.isBare then { start := p } :: cs else { start := p } :: c :: cs
  | c :: cs, .line p =>
    if c.closed then { start := c.start, rest := [p] } :: c :: cs
    else { c with rest := c.rest ++ [p] } :: cs
  | c :: cs, .close => { c with closed := true } :: cs

/-- The largest number of single precision. -/
def largest : Float := 340282346638528859811704183484516925440

/-- The figure of contours. If a point is nowhere, or too far from another one, there is none. -/
def ofContours? (contours : List Contour) : Option Figure :=
  let points := contours.flatMap Contour.points
  let figure : Figure :=
    ⟨contours, .ofList (points.map (·.1)), .ofList (points.map (·.2))⟩
  if points.all (fun p => p.1.isFinite && p.2.isFinite) &&
      figure.across.span ≤ largest && figure.down.span ≤ largest then some figure
  else none

/-- The figure of a path. A path without points or of a single point has none. -/
def ofPath? (path : List Segment) : Option Figure :=
  match path.foldl step [] with
  | [] => none
  | [c] => if c.isBare then none else ofContours? [c]
  | contours => ofContours? contours.reverse

/-! ## Insides -/

/-- The edges of a list of points. -/
def edges (ps : List Point) : List (Point × Point) := ps.zip ps.tail

/-- How an edge adds to the number of turns around a point, seen along a ray from it. -/
def turns (p : Point) (edge : Point × Point) : Int :=
  let (a, b) := edge
  let side := Point.cross (b.sub a) (p.sub a)
  if a.2 ≤ p.2 && p.2 < b.2 && 0 < side then 1
  else if b.2 ≤ p.2 && p.2 < a.2 && side < 0 then -1
  else 0

/-- How often closed lines through points wind around a point. -/
def winding (lines : List (List Point)) (p : Point) : Int :=
  lines.foldl
    (fun n ps => (edges (ps ++ ps.take 1)).foldl (fun n edge => n + turns p edge) n) 0

/-- The least extent of a figure with an inside. -/
def thinnest : Float := 1 / 4096

/-- The least and greatest number at which a surface can be painted. -/
def reach : Float := 2147483520

/-- Whether a coordinate lies in an extent, as far as that is in reach. -/
def spans (e : Extent) (x : Float) : Bool :=
  let least := max (-reach) (min reach e.least.floor)
  least ≤ x && x < least + max 1 (min reach e.span.ceil)

/-- Whether there is room between the ends of an extent, neither of which is too far away. -/
def isSolid (e : Extent) : Bool :=
  thinnest < e.span && -(largest / 4) ≤ e.least && e.greatest ≤ largest / 4

/-- Whether a figure covers a point. All contours count as closed. -/
def encloses (f : Figure) (p : Point) : Bool :=
  isSolid f.across && isSolid f.down && spans f.across p.1 && spans f.down p.2 &&
    winding (f.contours.map Contour.points) p != 0

/-! ## Outlines -/

/-- The points of a list without those that hardly differ from the one before them. -/
def distinct : List Point → List Point
  | [] => []
  | p :: ps => p :: go p ps
where
  go (p : Point) : List Point → List Point
    | [] => []
    | q :: qs =>
      let d := q.sub p
      if d.1.abs ≤ thinnest && d.2.abs ≤ thinnest then go p qs else q :: go q qs

/-- Whether a pen of a radius covers a point on its way along an edge. -/
def edgeCovers (radius : Float) (p : Point) (edge : Point × Point) : Bool :=
  let d := edge.2.sub edge.1
  let q := p.sub edge.1
  let along := q.dot d
  0 ≤ along && along ≤ d.dot d && (d.cross q).abs ≤ radius * d.length

/-- The largest ratio of a mitre to the width of the pen. -/
def mitreLimit : Float := 4

/-- Whether the corner between two edges covers a point. -/
def cornerCovers (radius : Float) (p : Point) (before after : Point × Point) : Bool :=
  let v := before.2
  let d := before.2.sub before.1
  let e := after.2.sub after.1
  let d := d.scale (1 / d.length)
  let e := e.scale (1 / e.length)
  let side : Float := if 0 < d.cross e then 1 else -1
  let m : Point := (side * d.2, -(side * d.1))
  let n : Point := (side * e.2, -(side * e.1))
  let tip := if mitreLimit * ((1 + m.dot n) / 2).sqrt < 1 then []
    else [v.add ((m.add n).scale (radius / (1 + m.dot n)))]
  winding [[v, v.add (m.scale radius)] ++ tip ++ [v.add (n.scale radius)]] p != 0

/-- Whether a pen of a width covers a point on its way along a contour. -/
def trackCovers (width : Float) (p : Point) (c : Contour) : Bool :=
  let es := edges (distinct c.track)
  let corners := es.zip (if c.closed then es.tail ++ es.take 1 else es.tail)
  es.any (edgeCovers (width / 2) p) ||
    corners.any fun corner => cornerCovers (width / 2) p corner.1 corner.2

/-- Whether a coordinate lies in an extent or not much beside it. -/
def isNear (margin : Float) (e : Extent) (x : Float) : Bool :=
  e.least - margin ≤ x && x ≤ e.greatest + margin

/-- Whether a pen of a width covers a point on its way along a figure. -/
def penCovers (f : Figure) (width : Float) (p : Point) : Bool :=
  let margin := mitreLimit * width
  0 < width && width.isFinite && isNear margin f.across p.1 && isNear margin f.down p.2 &&
    f.contours.any (trackCovers width p)

end Figure

end RideHud
