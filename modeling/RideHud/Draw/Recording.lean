import RideHud.Draw.Canvas

/-!
# Recording canvases

A recording canvas draws nothing and keeps what it was asked to do. It can be told to fail one kind
of painting; the failing operation is recorded too.
-/

namespace RideHud

/-- A canvas that keeps the operations. -/
structure Recording where
  width : Float
  height : Float
  /-- The kind of painting that fails, if one does. -/
  failing : Option Painting := none
  /-- The operations, in order. -/
  ops : List Op := []
  /-- The number of states that are saved. -/
  depth : Nat := 0
  deriving Repr, DecidableEq

namespace Recording

/-- The number of saved states after an operation. -/
def depthAfter : Op → Nat → Nat
  | .save, depth => depth + 1
  | .restore, depth => depth - 1
  | _, depth => depth

/-- Whether an operation succeeds. -/
def outcome (r : Recording) : Op → Except CanvasError Unit
  | .apply p => if r.failing = some p then .error (.requested p) else .ok ()
  | _ => .ok ()

/-- Perform an operation. -/
def perform (op : Op) (r : Recording) : Except CanvasError Unit × Recording :=
  (r.outcome op, { r with ops := r.ops ++ [op], depth := depthAfter op r.depth })

instance : Canvas Recording where
  size r := (r.width, r.height)
  perform := perform

/-- The operations so far, and the canvas without them. -/
def take (r : Recording) : List Op × Recording := (r.ops, { r with ops := [] })

/-- The angles of the recorded rotations, in order. -/
def rotations (r : Recording) : List Float :=
  r.ops.filterMap fun op => match op with
    | .rotate radians => some radians
    | _ => none

/-- Every operation is recorded. -/
@[simp] theorem ops_perform (op : Op) (r : Recording) : (perform op r).2.ops = r.ops ++ [op] := rfl

@[simp] theorem depth_perform (op : Op) (r : Recording) :
    (perform op r).2.depth = depthAfter op r.depth := rfl

@[simp] theorem failing_perform (op : Op) (r : Recording) :
    (perform op r).2.failing = r.failing := rfl

end Recording

end RideHud
