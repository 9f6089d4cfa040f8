import RideHud.Proofs.Draw.Reuse

/-!
# Saved parts of a drawing

Only saves and restores look at the saved states, so a drawing without bare ones does the same on top
of any others (`IgnoresStack`). What is saved is therefore done as it would be without the save, and
leaves the graphics state and the saved states as they were.

* `Raster.ignoresStack_perform`: operations other than saves and restores ignore the saved states;
* `Sketch.Nested.ignoresStack`: so do sketches that save and restore by saved parts only;
* `Sketch.saved_restores_graphics`: a saved part passes its result on and undoes its changes to the
  graphics state, whether it ends well or fails.
-/

namespace RideHud

/-! ## Operations on top of saved states -/

namespace Raster

/-- The canvas with other saved states. -/
def onStack (r : Raster) (stack : List Graphics) : Raster := { r with stack := stack }

variable {r : Raster} {stack : List Graphics}

theorem lineTo_onStack (p : Point) : (r.onStack stack).lineTo p = (r.lineTo p).onStack stack := by
  show (if r.current.isNone then _ else _) = _
  unfold lineTo
  split <;> rfl

theorem rectangle_onStack (x y width height : Float) :
    (r.onStack stack).rectangle x y width height = (r.rectangle x y width height).onStack stack := by
  have hfirst : (r.onStack stack).moveTo (x, y) = (r.moveTo (x, y)).onStack stack := rfl
  simp only [rectangle, hfirst, lineTo_onStack]
  rfl

theorem text_onStack (t : String) (size : Float) :
    (r.onStack stack).text t size = (r.text t size).onStack stack := by
  unfold text
  dsimp only
  rw [List.foldl_hom (onStack · stack) fun r (b : Glyph.Box Float) =>
    rectangle_onStack b.x b.y b.width b.height]
  rfl

/-- What is done to a canvas does not depend on the saved states, and leaves them as they were. -/
def IgnoresStack {ρ : Type} (f : Raster → ρ × Raster) : Prop :=
  ∀ (r : Raster) (stack : List Graphics), f (r.onStack stack) = ((f r).1, (f r).2.onStack stack)

theorem ignoresStack_paintFigure (pen : Option Float) (figure : Figure) :
    IgnoresStack (paintFigure · pen figure) := by
  intro r stack
  have hgraphics : (r.onStack stack).graphics = r.graphics := rfl
  dsimp only
  rw [paintFigure, paintFigure, hgraphics]
  cases r.graphics.ink.ready? <;> rfl

theorem ignoresStack_paintPath (pen : Option Float) (path : Array Segment) :
    IgnoresStack (paintPath · pen path) := by
  intro r stack
  unfold paintPath
  cases Figure.ofPath? path.toList with
  | none => rfl
  | some figure => exact ignoresStack_paintFigure pen figure r stack

theorem ignoresStack_clipTo (figure : Option Figure) : IgnoresStack (clipTo · figure) := by
  intro r stack
  show (if (r.graphics.clip.isEmpty || figure.isNone) && (r.width = 0 || r.height = 0) then _ else _)
    = _
  unfold clipTo
  dsimp only
  split <;> rfl

/-- **Only saves and restores look at the saved states.** -/
theorem ignoresStack_perform {op : Op} (hop : op.isBracket = false) :
    IgnoresStack (Canvas.perform op) := by
  intro r stack
  cases op with
  | save => cases hop
  | restore => cases hop
  | lineTo x y => exact congrArg (Except.ok (), ·) (lineTo_onStack (x, y))
  | rectangle x y width height =>
      exact congrArg (Except.ok (), ·) (rectangle_onStack x y width height)
  | arc cx cy radius start stop =>
      exact congrArg (Except.ok (), ·)
        (List.foldl_hom (onStack · stack) fun _ => lineTo_onStack)
  | text t size => exact congrArg (Except.ok (), ·) (text_onStack t size)
  | apply p =>
      -- What drops the path does so before it looks at the canvas.
      cases p with
      | clip => exact ignoresStack_clipTo (Figure.ofPath? r.path.toList) r.dropPath stack
      | fillPreserve => exact ignoresStack_paintPath none r.path r stack
      | fill => exact ignoresStack_paintPath none r.path r.dropPath stack
      | stroke => exact ignoresStack_paintPath _ r.path r.dropPath stack
  | _ => rfl

end Raster

/-! ## Sketches on top of saved states -/

namespace Sketch

open Raster

variable {ε : Type} {lift : CanvasError → ε}

/-- A sketch that saves and restores by its saved parts alone. It may go on after an operation that
fails, and it may fail for a reason of its own. -/
inductive Nested : Sketch ε → Prop
  | nil : Nested []
  | call {op : Op} {steps : Sketch ε} (hop : op.isBracket = false) (hsteps : Nested steps) :
      Nested (.call op :: steps)
  | attempt {op : Op} {next : Except CanvasError Unit → Sketch ε} {steps : Sketch ε}
      (hop : op.isBracket = false) (hnext : ∀ outcome, Nested (next outcome))
      (hsteps : Nested steps) : Nested (.attempt op next :: steps)
  | saved {body steps : Sketch ε} (hbody : Nested body) (hsteps : Nested steps) :
      Nested (.saved body :: steps)
  | refuse {e : ε} {steps : Sketch ε} (hsteps : Nested steps) : Nested (.refuse e :: steps)
  | mark {steps : Sketch ε} (hsteps : Nested steps) : Nested (.mark :: steps)

/-- A step and what comes after it. -/
theorem ignoresStack_cons {step : Step ε} {steps : Sketch ε} (hstep : IgnoresStack (step.run lift))
    (hsteps : IgnoresStack (Sketch.run lift steps)) :
    IgnoresStack (Sketch.run lift (step :: steps)) := by
  intro r stack
  rw [Sketch.run, Sketch.run, hstep]
  generalize step.run lift r = outcome
  obtain ⟨_ | _, c⟩ := outcome
  · rfl
  · exact hsteps c stack

/-- **What a saved part does** if its body ignores the saved states: what the body does without the
save, and then the graphics state is put back. -/
theorem run_saved {body : Sketch ε} (hbody : IgnoresStack (Sketch.run lift body)) (r : Raster) :
    Step.run lift (.saved body) r
      = ((Sketch.run lift body r).1,
          { (Sketch.run lift body r).2 with graphics := r.graphics, stack := r.stack }) := by
  have hsave : (Canvas.perform .save r).2 = r.onStack (r.graphics :: r.stack) := rfl
  rw [Step.run, hsave, hbody]
  rfl

/-- A nested sketch ignores the saved states. -/
theorem Nested.ignoresStack {sketch : Sketch ε} (h : sketch.Nested) :
    IgnoresStack (Sketch.run lift sketch) := by
  induction h with
  | nil =>
      intro r stack
      rw [Sketch.run, Sketch.run]
  | call hop _ ih =>
      refine ignoresStack_cons (fun r stack => ?_) ih
      rw [Step.run, Step.run, ignoresStack_perform hop]
  | attempt hop _ _ ihnext ih =>
      refine ignoresStack_cons (fun r stack => ?_) ih
      rw [Step.run, Step.run, ignoresStack_perform hop]
      exact ihnext _ _ stack
  | saved _ _ ihbody ih =>
      refine ignoresStack_cons (fun r stack => ?_) ih
      rw [run_saved ihbody, run_saved ihbody, ihbody]
      rfl
  | refuse _ ih =>
      refine ignoresStack_cons (fun r stack => ?_) ih
      rw [Step.run, Step.run]
  | mark _ ih =>
      refine ignoresStack_cons (fun r stack => ?_) ih
      rw [Step.run, Step.run]

/-! ## What a saved part leaves -/

/-- **A saved part passes its result on and undoes what it did to the graphics state**, however it
ends. Its body is run as it would be without the save, and of what that leaves, only the transform,
the ink, the line width, the clip region and the saved states are as they were before. -/
theorem saved_restores_graphics {sketch : Sketch ε} (h : sketch.Nested) (lift : CanvasError → ε)
    (r : Raster) :
    let alone := Sketch.run lift sketch r
    let inside := Sketch.run lift sketch (Canvas.perform .save r).2
    let after := Step.run lift (.saved sketch) r
    (after.2.graphics = r.graphics ∧ after.2.stack = r.stack) ∧
      (after.1 = inside.1 ∧ inside.1 = alone.1) ∧
      after.2 = { alone.2 with graphics := r.graphics, stack := r.stack } := by
  intro alone inside after
  have hafter : after = (alone.1, { alone.2 with graphics := r.graphics, stack := r.stack }) :=
    run_saved h.ignoresStack r
  have hinside : inside = (alone.1, alone.2.onStack (r.graphics :: r.stack)) :=
    h.ignoresStack r (r.graphics :: r.stack)
  rw [hafter, hinside]
  exact ⟨⟨rfl, rfl⟩, ⟨rfl, rfl⟩, rfl⟩

/-- A sketch that hides everything in a saved part and fails there, before its last step. -/
def cutShort : Sketch String :=
  [.call (.lineWidth 1), .saved [.call (.translate 3 4), .call (.apply .clip), .refuse "no mast"],
    .call (.scale 2 2)]

/-- A surface that was drawn on, with a state saved. -/
def used : Raster where
  width := 2
  height := 2
  graphics := { transform := Transform.identity.scale 2 2, lineWidth := 5, clip := [{}] }
  stack := [{ ink := .solid ⟨1, 2, 3, 4⟩ }]

/-- The failure is told, and neither the hidden region nor the line width is left. -/
theorem saved_restores_used :
    cutShort.Nested ∧
      (Step.run CanvasError.message (.saved cutShort) used).1 = .error "no mast" ∧
      (Step.run CanvasError.message (.saved cutShort) used).2.graphics = used.graphics ∧
      (Step.run CanvasError.message (.saved cutShort) used).2.stack = used.stack := by
  have hnested : cutShort.Nested :=
    .call rfl (.saved (.call rfl (.call rfl (.refuse .nil))) (.call rfl .nil))
  obtain ⟨hgraphics, ⟨hinside, halone⟩, -⟩ :=
    saved_restores_graphics hnested CanvasError.message used
  refine ⟨hnested, (hinside.trans halone).trans ?_, hgraphics⟩
  simp only [cutShort, Sketch.run, Step.run]
  rfl

end Sketch

end RideHud
