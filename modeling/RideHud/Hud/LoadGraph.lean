import RideHud.Hud.Strategy

/-!
# The graph of the load

The graph shows the load of the last seconds, one point for each bucket of the recording. Its last
point, at the right edge, is the anchor: the bucket that follows the current time, or the last one
there is. Older buckets lie to the left of it, as far as the window reaches.
-/

namespace RideHud.LoadGraph

open scoped Scalar

/-! ## Points -/

section

variable {α : Type} [Elementary α]

/-- The width of the graph. -/
def width : α := 200

/-- The height of the graph. -/
def height : α := 100

/-- The height on the graph at which a load lies, seen from the top. -/
def level (maxLoad load : α) : α := height - height / maxLoad * load

/-- The point of a bucket. -/
def point (window : Micros) (maxLoad : α) (now : Micros) (b : Bucket α) : α × α :=
  (width - width / window.toScalar * (now - b.time).toScalar, level maxLoad b.load)

/-- The buckets on the graph, from the anchor back to the second one. -/
def shown (window : Micros) (buckets : List (Bucket α)) (anchor : Nat) (now : Micros) :
    List (Bucket α) :=
  (((buckets.take (anchor + 1)).drop 1).reverse).takeWhile fun b => !(b.time < now.before window)

/-- The points of the graph, from right to left. -/
def points (window : Micros) (maxLoad : α) (buckets : List (Bucket α)) (anchor : Nat) :
    List (α × α) :=
  match buckets[anchor]? with
  | none => []
  | some b => (shown window buckets anchor b.time).map (point window maxLoad b.time)

/-- The place of the bucket that follows a time, or else of the last one, found from where the last
search ended unless that was for a later time. -/
def anchor? (buckets : List (Bucket α)) (cursor : Cursor) (now : Micros) : Option Nat :=
  if buckets.isEmpty then none
  else
    let last := buckets.length - 1
    let hint := if now < cursor.time then 0 else cursor.place
    match Timeline.lookup buckets (min hint last) now with
    | .ok place => some place
    | .error _ => some last

end

/-! ## Drawing -/

/-- The line through the points. -/
def line (window : Micros) (maxLoad : Float) (buckets : List (Bucket Float)) (anchor : Nat) :
    List Op :=
  match points window maxLoad buckets anchor with
  | [] => []
  | p :: ps => .moveTo p.1 p.2 :: ps.map fun q => .lineTo q.1 q.2

/-- The graph with its axes. The line turns from green at the bottom to red at the redline. -/
def sketch (graph : Settings.Graph) (buckets : List (Bucket Float)) (anchor : Nat) :
    Sketch HudError :=
  [.saved (Sketch.calls (
      [.rectangle 0 0 width height,
        .apply .clip,
        .lineWidth 6,
        .paint (.linear (0, level graph.maxLoad graph.redline) (0, height)
          [⟨0, .pureRed⟩, ⟨0.5, .yellow⟩, ⟨1, .pureGreen⟩])] ++
      line graph.window graph.maxLoad buckets anchor ++
      [.apply .stroke]))] ++
  Sketch.calls
    [.paint (.solid .black),
      .lineWidth 3,
      .moveTo 0 0,
      .lineTo 0 height,
      .lineTo width height,
      .apply .stroke]

end RideHud.LoadGraph
