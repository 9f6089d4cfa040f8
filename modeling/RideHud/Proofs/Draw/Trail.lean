import RideHud.Draw.Raster

/-!
# Trails

A `Trail` is a path that is not mapped to a surface, so what is drawn can be told without rounding.
A raster canvas does the same with the points as it maps them (`Raster.follow`). A rectangle adds
one closed contour to a trail (`Trail.closed_rectangle`), and a run of points adds lines to them, of
which the first one is a move if there is no current point (`Trail.foldl_lineTo`).
-/

namespace RideHud

open scoped Scalar

/-! ## Paths -/

/-- A step of a path that is not mapped to a surface. -/
inductive Leg (α : Type) where
  | move (p : α × α)
  | line (p : α × α)
  /-- Go back to where the contour began. -/
  | close
  deriving Repr, DecidableEq

/-- A path that is not mapped to a surface, and its current point. -/
structure Trail (α : Type) where
  legs : List (Leg α)
  current : Option (α × α)
  deriving Repr, DecidableEq

/-- The corners of a box, in the order in which they are drawn. -/
def Glyph.Box.corners {α : Type} [Scalar α] (b : Box α) : List (α × α) :=
  [(b.x, b.y), (b.x + b.width, b.y), (b.x + b.width, b.y + b.height), (b.x, b.y + b.height)]

namespace Trail

/-- The closed contours of a path by their corners, behind those of the contour that is open. -/
def closedFrom {α : Type} : (corners : List (α × α)) → List (Leg α) → List (List (α × α))
  | _, [] => []
  | _, .move p :: legs => closedFrom [p] legs
  | corners, .line p :: legs => closedFrom (corners ++ [p]) legs
  | corners, .close :: legs => corners :: closedFrom (corners.take 1) legs

/-- The closed contours of a trail, in the order in which they were drawn. -/
def closed {α : Type} (t : Trail α) : List (List (α × α)) := closedFrom [] t.legs

variable {α : Type} [Scalar α]

/-- Start a line at a point. -/
def moveTo (t : Trail α) (p : α × α) : Trail α := ⟨t.legs ++ [.move p], some p⟩

/-- Draw on to a point. -/
def lineTo (t : Trail α) (p : α × α) : Trail α :=
  if t.current.isNone then t.moveTo p else ⟨t.legs ++ [.line p], some p⟩

/-- Go back to where the contour began. -/
def close (t : Trail α) : Trail α := { t with legs := t.legs ++ [.close] }

/-- Add a closed rectangle. -/
def rectangle (t : Trail α) (b : Glyph.Box α) : Trail α :=
  ((((t.moveTo (b.x, b.y)).lineTo (b.x + b.width, b.y)).lineTo
    (b.x + b.width, b.y + b.height)).lineTo (b.x, b.y + b.height)).close

/-- The current point, or zero if there is none. -/
def origin (t : Trail α) : α × α := t.current.getD (0, 0)

/-! ### Contours -/

variable (t : Trail α)

/-- What a rectangle adds to the path. -/
theorem legs_rectangle (b : Glyph.Box α) :
    (t.rectangle b).legs = t.legs ++ [.move (b.x, b.y), .line (b.x + b.width, b.y),
      .line (b.x + b.width, b.y + b.height), .line (b.x, b.y + b.height), .close] := by
  simp [rectangle, moveTo, lineTo, close]

omit [Scalar α] in
/-- A move leaves the contours before it. -/
theorem closedFrom_append_move (corners : List (α × α)) (legs legs' : List (Leg α)) (p : α × α) :
    closedFrom corners (legs ++ .move p :: legs')
      = closedFrom corners legs ++ closedFrom [p] legs' := by
  induction legs generalizing corners with
  | nil => rfl
  | cons leg legs ih =>
      cases leg with
      | move q => exact ih [q]
      | line q => exact ih (corners ++ [q])
      | close => exact congrArg (corners :: ·) (ih (corners.take 1))

omit [Scalar α] in
theorem closed_moveTo (p : α × α) : (t.moveTo p).closed = t.closed :=
  (closedFrom_append_move [] t.legs [] p).trans (List.append_nil _)

/-- A rectangle is one more closed contour. -/
theorem closed_rectangle (b : Glyph.Box α) : (t.rectangle b).closed = t.closed ++ [b.corners] := by
  rw [closed, legs_rectangle, closedFrom_append_move]
  rfl

theorem closed_foldl_rectangle (bs : List (Glyph.Box α)) :
    (bs.foldl rectangle t).closed = t.closed ++ bs.map Glyph.Box.corners := by
  induction bs generalizing t with
  | nil => exact (List.append_nil _).symm
  | cons b bs ih =>
      rw [List.foldl_cons, ih, closed_rectangle, List.append_assoc]
      rfl

/-! ### Lines -/

omit [Scalar α] in
/-- A line begins with a move if there is no current point. -/
theorem lineTo_eq (p : α × α) :
    t.lineTo p = ⟨t.legs ++ [if t.current.isNone then .move p else .line p], some p⟩ := by
  rw [lineTo]
  split
  · rfl
  · rfl

omit [Scalar α] in
/-- From a current point on there are lines only. -/
theorem foldl_lineTo_some (legs : List (Leg α)) (q : α × α) (ps : List (α × α)) :
    ps.foldl lineTo ⟨legs, some q⟩ = ⟨legs ++ ps.map .line, some (ps.getLast?.getD q)⟩ := by
  induction ps generalizing legs q with
  | nil => rw [List.foldl_nil, List.map_nil, List.append_nil]; rfl
  | cons p ps ih =>
      rw [List.foldl_cons, lineTo_eq, ih, List.map_cons, List.append_assoc, List.getLast?_cons]
      rfl

omit [Scalar α] in
/-- **A run of points** starts with a move if there is no current point, and ends at the last one.
-/
theorem foldl_lineTo (p : α × α) (ps : List (α × α)) :
    (p :: ps).foldl lineTo t =
      ⟨t.legs ++ (if t.current.isNone then .move p else .line p) :: ps.map .line,
        some (ps.getLast?.getD p)⟩ := by
  rw [List.foldl_cons, lineTo_eq, foldl_lineTo_some, List.append_assoc]
  rfl

end Trail

/-! ## Raster canvases -/

namespace Raster

/-- A step of a path as a transform maps it. -/
def placed (t : Transform) : Leg Float → Segment
  | .move p => .move (t.apply p.1 p.2)
  | .line p => .line (t.apply p.1 p.2)
  | .close => .close

/-- The canvas on which a trail was drawn in addition. -/
def follow (r : Raster) (t : Trail Float) : Raster :=
  { r with
    path := r.path ++ (t.legs.map (placed r.graphics.transform)).toArray
    current := t.current }

variable (r : Raster) (t : Trail Float)

/-- A trail that starts where the canvas is adds nothing yet. -/
theorem follow_current : r.follow ⟨[], r.current⟩ = r := by
  simp [follow]

theorem moveTo_follow (p : Point) : (r.follow t).moveTo p = r.follow (t.moveTo p) := by
  simp [moveTo, follow, Trail.moveTo, placed]

theorem lineTo_follow (p : Point) : (r.follow t).lineTo p = r.follow (t.lineTo p) := by
  unfold lineTo Trail.lineTo
  have hcurrent : (r.follow t).current = t.current := rfl
  rw [hcurrent]
  split
  · exact moveTo_follow r t p
  · simp [follow, placed]

theorem rectangle_follow (b : Glyph.Box Float) :
    (r.follow t).rectangle b.x b.y b.width b.height = r.follow (t.rectangle b) := by
  unfold rectangle Trail.rectangle
  simp only [moveTo_follow, lineTo_follow]
  simp [follow, placed, Trail.close]

end Raster

end RideHud
