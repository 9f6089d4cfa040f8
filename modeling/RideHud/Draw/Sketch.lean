import RideHud.Draw.Canvas

/-!
# Sketches

A sketch is a drawing before it is on a canvas: steps that are taken one after the other until one
fails. Steps inside `Step.saved` are taken between a save and a restore, and the restore comes
whether they fail or not, so a sketch without bare saves and restores leaves the saved states as they
were. A failed operation ends a sketch unless it is only attempted; then the sketch decides how to go
on, so whatever can be done with the operations of a canvas is a sketch.

A mark draws nothing. Whether a drawing came as far as its mark (`Sketch.reaches`) tells what has been
done besides the drawing by the time that a step fails.
-/

namespace RideHud

/-- A step of a sketch, which may fail for a reason of its own. -/
inductive Step (ε : Type) where
  /-- An operation on the canvas. -/
  | call (op : Op)
  /-- An operation that may fail, and the steps that its outcome asks for. -/
  | attempt (op : Op) (next : Except CanvasError Unit → List (Step ε))
  /-- Steps whose changes to the graphics state end with them. -/
  | saved (body : List (Step ε))
  /-- Fail. -/
  | refuse (e : ε)
  /-- Draw nothing, but be seen to have come this far. -/
  | mark

/-- Steps, in the order in which they are taken. -/
abbrev Sketch (ε : Type) := List (Step ε)

variable {ε C : Type} [Canvas C]

mutual

/-- Take a step. -/
def Step.run (lift : CanvasError → ε) : Step ε → C → Except ε Unit × C
  | .call op, c => ((Canvas.perform op c).1.mapError lift, (Canvas.perform op c).2)
  | .attempt op next, c =>
    Sketch.run lift (next (Canvas.perform op c).1) (Canvas.perform op c).2
  | .saved body, c =>
    let (result, c) := Sketch.run lift body (Canvas.perform .save c).2
    (result, (Canvas.perform .restore c).2)
  | .refuse e, c => (.error e, c)
  | .mark, c => (.ok (), c)

/-- Take steps until one fails. -/
def Sketch.run (lift : CanvasError → ε) : Sketch ε → C → Except ε Unit × C
  | [], c => (.ok (), c)
  | step :: steps, c =>
    match step.run lift c with
    | (.error e, c) => (.error e, c)
    | (.ok (), c) => Sketch.run lift steps c

end

mutual

/-- Whether a step comes to a mark. -/
def Step.reaches (lift : CanvasError → ε) : Step ε → C → Bool
  | .call _, _ => false
  | .attempt op next, c =>
    Sketch.reaches lift (next (Canvas.perform op c).1) (Canvas.perform op c).2
  | .saved body, c => Sketch.reaches lift body (Canvas.perform .save c).2
  | .refuse _, _ => false
  | .mark, _ => true

/-- Whether the steps come to a mark before one fails. -/
def Sketch.reaches (lift : CanvasError → ε) : Sketch ε → C → Bool
  | [], _ => false
  | step :: steps, c =>
    step.reaches lift c ||
      match step.run lift c with
      | (.error _, _) => false
      | (.ok (), c) => Sketch.reaches lift steps c

end

/-- Nothing is drawn without steps. -/
@[simp] theorem Sketch.run_nil (lift : CanvasError → ε) (c : C) :
    Sketch.run lift [] c = (.ok (), c) := by
  simp [Sketch.run]

/-- Operations, as a sketch. -/
def Sketch.calls (ops : List Op) : Sketch ε := ops.map .call

end RideHud
