import RideHud.Draw.Raster
import RideHud.Proofs.Draw.Tidy

/-!
# What a drawing leaves on a raster canvas

Clearing a raster canvas neither drops its path nor restores its graphics state, so a drawing can
only be followed by another one if it leaves both as they were.

* `Sketch.Draws.keeps`: a tidy sketch leaves the saved states;
* `Sketch.pen`: what is known of path and ink along a sketch, without a canvas;
* `Sketch.Draws.tells`: that it holds on every canvas, and that a sketch that fails leaves no path;
* `Sketch.Spends.leaves_layers`: so a sketch can be told to leave nothing but layers.
-/

namespace RideHud

variable {ε : Type}

namespace Raster

/-! ## The path -/

/-- The canvases differ in their paths at most. -/
def DifferInPath (r r' : Raster) : Prop :=
  ∃ path current, r' = { r with path := path, current := current }

namespace DifferInPath

variable {r r' r'' : Raster}

theorem refl (r : Raster) : DifferInPath r r := ⟨r.path, r.current, rfl⟩

theorem trans (h : DifferInPath r r') (h' : DifferInPath r' r'') : DifferInPath r r'' := by
  obtain ⟨path, current, rfl⟩ := h
  obtain ⟨path', current', rfl⟩ := h'
  exact ⟨path', current', rfl⟩

theorem moveTo (r : Raster) (p : Point) : DifferInPath r (r.moveTo p) := ⟨_, _, rfl⟩

theorem lineTo (r : Raster) (p : Point) : DifferInPath r (r.lineTo p) := by
  unfold Raster.lineTo
  split
  · exact moveTo r p
  · exact ⟨_, _, rfl⟩

theorem rectangle (r : Raster) (x y width height : Float) :
    DifferInPath r (r.rectangle x y width height) :=
  (moveTo r _).trans <| (lineTo _ _).trans <| (lineTo _ _).trans <| (lineTo _ _).trans ⟨_, _, rfl⟩

/-- Operations that change the path only, one after the other. -/
theorem foldl {β : Type} {f : Raster → β → Raster} (hf : ∀ r b, DifferInPath r (f r b))
    (bs : List β) (r : Raster) : DifferInPath r (bs.foldl f r) := by
  induction bs generalizing r with
  | nil => exact refl r
  | cons b bs ih => exact (hf r b).trans (ih _)

theorem arc (r : Raster) (cx cy radius start stop : Float) :
    DifferInPath r ((Arc.points cx cy radius start stop).foldl Raster.lineTo r) :=
  foldl lineTo _ r

theorem text (r : Raster) (t : String) (size : Float) : DifferInPath r (r.text t size) :=
  (foldl (fun r (b : Glyph.Box Float) => rectangle r b.x b.y b.width b.height) _ r).trans
    (moveTo _ _)

end DifferInPath

/-! ## Paintings -/

/-- A painting leaves everything but the layers. -/
theorem paintPath_fixes (r : Raster) (pen : Option Float) (path : Array Segment) :
    ∃ layers, (r.paintPath pen path).2 = { r with layers := layers } := by
  unfold paintPath
  split
  · exact ⟨r.layers, rfl⟩
  · unfold paintFigure
    split
    · exact ⟨r.layers, rfl⟩
    · exact ⟨_, rfl⟩

/-- Clipping leaves everything but the clip region. -/
theorem clipTo_fixes (r : Raster) (figure : Option Figure) :
    ∃ clip, (r.clipTo figure).2 = { r with graphics := { r.graphics with clip := clip } } := by
  unfold clipTo
  split
  · exact ⟨[], rfl⟩
  · exact ⟨_, rfl⟩

/-- With ink of one colour, nothing fails. -/
theorem paintPath_of_solid {r : Raster} {p : Pixel} (h : r.graphics.ink = .solid p)
    (pen : Option Float) (path : Array Segment) : (r.paintPath pen path).1 = .ok () := by
  unfold paintPath
  split
  · rfl
  · rw [paintFigure, h]
    rfl

/-! ## Saved states -/

/-- The canvases have the same size and the same saved states. -/
structure Keeps (r r' : Raster) : Prop where
  width_eq : r'.width = r.width
  height_eq : r'.height = r.height
  stack_eq : r'.stack = r.stack

namespace Keeps

variable {r r' r'' : Raster}

theorem refl (r : Raster) : Keeps r r := ⟨rfl, rfl, rfl⟩

theorem trans (h : Keeps r r') (h' : Keeps r' r'') : Keeps r r'' :=
  ⟨h'.1.trans h.1, h'.2.trans h.2, h'.3.trans h.3⟩

end Keeps

theorem DifferInPath.keeps {r r' : Raster} (h : DifferInPath r r') : Keeps r r' := by
  obtain ⟨path, current, rfl⟩ := h
  exact ⟨rfl, rfl, rfl⟩

/-- Paintings keep everything but layers, path and clip. -/
theorem keeps_apply (r : Raster) (p : Painting) : Keeps r (r.apply p).2 := by
  cases p with
  | clip =>
      obtain ⟨clip, h⟩ := r.dropPath.clipTo_fixes (Figure.ofPath? r.path.toList)
      rw [apply, h]
      exact ⟨rfl, rfl, rfl⟩
  | fillPreserve =>
      obtain ⟨layers, h⟩ := paintPath_fixes r none r.path
      rw [apply, h]
      exact ⟨rfl, rfl, rfl⟩
  | fill =>
      obtain ⟨layers, h⟩ := paintPath_fixes r.dropPath none r.path
      rw [apply, h]
      exact ⟨rfl, rfl, rfl⟩
  | stroke =>
      obtain ⟨layers, h⟩ := paintPath_fixes r.dropPath
        (some (r.graphics.lineWidth * r.graphics.transform.lengthScale).toFloat32.toFloat) r.path
      rw [apply, h]
      exact ⟨rfl, rfl, rfl⟩

/-- Only saves and restores change the saved states. -/
theorem keeps_perform {op : Op} (hop : op.isBracket = false) (r : Raster) :
    Keeps r (Canvas.perform op r).2 := by
  cases op with
  | save => cases hop
  | restore => cases hop
  | apply p => exact keeps_apply r p
  | moveTo x y => exact (DifferInPath.moveTo r (x, y)).keeps
  | lineTo x y => exact (DifferInPath.lineTo r (x, y)).keeps
  | rectangle x y width height => exact (DifferInPath.rectangle r x y width height).keeps
  | arc cx cy radius start stop => exact (DifferInPath.arc r cx cy radius start stop).keeps
  | text t size => exact (DifferInPath.text r t size).keeps
  | _ => exact ⟨rfl, rfl, rfl⟩

/-- Between a save and a restore nothing is left of the graphics state. -/
theorem after_bracket {ops : List Op} {r : Raster}
    (h : Keeps (Canvas.perform .save r).2 (Canvas.after ops (Canvas.perform .save r).2)) :
    let inside := Canvas.after ops (Canvas.perform .save r).2
    Canvas.after (.save :: ops ++ [.restore]) r
      = { r with layers := inside.layers, path := inside.path, current := inside.current } := by
  intro inside
  obtain ⟨hwidth, hheight, hstack⟩ := h
  replace hstack : inside.stack = r.graphics :: r.stack := hstack
  rw [Canvas.after_append]
  show inside.change .restore = _
  rw [change, hstack]
  show Raster.mk inside.width inside.height _ _ _ _ _ = _
  rw [show inside.width = r.width from hwidth, show inside.height = r.height from hheight]

end Raster

/-! ## Tidy sketches -/

namespace Sketch

open Raster

variable {lift : CanvasError → ε} {sketch : Sketch ε} {r : Raster} {ops : List Op}
  {result : Except ε Unit}

/-- A tidy sketch leaves the saved states as they were, however it ends. -/
theorem Draws.keeps (h : Draws lift sketch r ops result) (htidy : Tidy sketch) :
    Keeps r (Canvas.after ops r) := by
  induction h with
  | done => exact .refl _
  | called _ _ ih =>
      cases htidy with
      | call hop hsteps => exact (keeps_perform hop _).trans (ih hsteps)
  | callFailed _ =>
      cases htidy with
      | call hop _ => exact keeps_perform hop _
  | attempted => cases htidy
  | attemptFailed => cases htidy
  | saved _ _ ihbody ihsteps =>
      cases htidy with
      | saved hbody hsteps =>
          have hfirst := ihsteps hsteps
          rw [after_bracket (ihbody hbody)] at hfirst
          rw [Canvas.after_append, after_bracket (ihbody hbody)]
          exact ⟨hfirst.1, hfirst.2, hfirst.3⟩
  | savedFailed _ ihbody =>
      cases htidy with
      | saved hbody _ =>
          rw [after_bracket (ihbody hbody)]
          exact ⟨rfl, rfl, rfl⟩
  | refused => cases htidy
  | marked _ ih =>
      cases htidy with
      | mark hsteps => exact ih hsteps

end Sketch

/-! ## What is known of the path -/

/-- There is neither a path nor a current point. -/
def Raster.Idle (r : Raster) : Prop := r.path = #[] ∧ r.current = none

/-- What is known of a canvas, without looking at it. -/
structure Pen where
  /-- There is neither a path nor a current point. -/
  idle : Bool
  /-- The ink has one colour, so nothing that is painted with it fails. -/
  plain : Bool

namespace Pen

/-- What is known after an operation. Nothing is after a save or a restore, which sketches do by
saved parts, and after a painting that may fail and keep the path. -/
def next (pen : Pen) : Op → Option Pen
  | .save | .restore => none
  | .moveTo .. | .lineTo .. | .arc .. | .rectangle .. | .text .. => some { pen with idle := false }
  | .paint (.solid _) => some { pen with plain := true }
  | .paint (.linear ..) => some { pen with plain := false }
  | .apply .fillPreserve => if pen.plain then some pen else none
  | .apply _ => some { pen with idle := true }
  | .clear | .translate .. | .scale .. | .rotate .. | .lineWidth _ => some pen

/-- What is known holds of a canvas. -/
structure Tells (pen : Pen) (r : Raster) : Prop where
  idle : pen.idle → r.Idle
  plain : pen.plain → ∃ p, r.graphics.ink = .solid p

variable {pen pen' : Pen} {r r' : Raster}

/-- The path does not matter to the ink. -/
theorem Tells.of_differInPath (h : pen.Tells r) (hdiffer : r.DifferInPath r') :
    Tells { pen with idle := false } r' := by
  obtain ⟨path, current, rfl⟩ := hdiffer
  exact ⟨nofun, h.plain⟩

/-- Layers matter to nothing that is known. -/
theorem Tells.of_layers (h : pen.Tells r) (hlayers : ∃ layers, r' = { r with layers := layers }) :
    pen.Tells r' := by
  obtain ⟨layers, rfl⟩ := hlayers
  exact ⟨h.idle, h.plain⟩

/-- The clip region matters to nothing that is known. -/
theorem Tells.of_clip (h : pen.Tells r)
    (hclip : ∃ clip, r' = { r with graphics := { r.graphics with clip := clip } }) :
    pen.Tells r' := by
  obtain ⟨clip, rfl⟩ := hclip
  exact ⟨h.idle, h.plain⟩

theorem Tells.dropPath (h : pen.Tells r) : Tells { pen with idle := true } r.dropPath :=
  ⟨fun _ => ⟨rfl, rfl⟩, h.plain⟩

/-- What drops the path leaves none, whether it succeeds or not. -/
theorem Tells.dropped {used : Except CanvasError Unit × Raster}
    (h : Tells { pen with idle := true } used.2) :
    (used.1 = .ok () ∧ Tells { pen with idle := true } used.2) ∨
      ∃ e, used.1 = .error e ∧ used.2.Idle := by
  obtain ⟨result, r⟩ := used
  cases result with
  | ok u => exact .inl ⟨rfl, h⟩
  | error e => exact .inr ⟨e, rfl, h.idle rfl⟩

/-- After a painting that succeeds, what is known holds; one that fails leaves no path. -/
theorem Tells.apply {p : Painting} (h : pen.Tells r) (hnext : pen.next (.apply p) = some pen') :
    ((r.apply p).1 = .ok () ∧ pen'.Tells (r.apply p).2) ∨
      ∃ e, (r.apply p).1 = .error e ∧ (r.apply p).2.Idle := by
  cases p with
  | clip =>
      cases hnext
      exact Tells.dropped (h.dropPath.of_clip (r.dropPath.clipTo_fixes _))
  | fillPreserve =>
      -- The path is kept, but as the ink has one colour this does not fail.
      rw [next] at hnext
      split at hnext
      · next hplain =>
          cases hnext
          obtain ⟨p, hink⟩ := h.plain hplain
          exact .inl ⟨r.paintPath_of_solid hink none r.path,
            h.of_layers (r.paintPath_fixes none r.path)⟩
      · cases hnext
  | fill =>
      cases hnext
      exact Tells.dropped (h.dropPath.of_layers (r.dropPath.paintPath_fixes none r.path))
  | stroke =>
      cases hnext
      exact Tells.dropped (h.dropPath.of_layers (r.dropPath.paintPath_fixes _ r.path))

/-- **After an operation that succeeds, what is known holds**; one that fails leaves no path. -/
theorem Tells.perform {op : Op} (h : pen.Tells r) (hnext : pen.next op = some pen') :
    ((Canvas.perform op r).1 = .ok () ∧ pen'.Tells (Canvas.perform op r).2) ∨
      ∃ e, (Canvas.perform op r).1 = .error e ∧ (Canvas.perform op r).2.Idle := by
  cases op with
  | save => cases hnext
  | restore => cases hnext
  | moveTo x y =>
      cases hnext
      exact .inl ⟨rfl, h.of_differInPath (.moveTo r (x, y))⟩
  | lineTo x y =>
      cases hnext
      exact .inl ⟨rfl, h.of_differInPath (.lineTo r (x, y))⟩
  | rectangle x y width height =>
      cases hnext
      exact .inl ⟨rfl, h.of_differInPath (.rectangle r x y width height)⟩
  | arc cx cy radius start stop =>
      cases hnext
      exact .inl ⟨rfl, h.of_differInPath (.arc r cx cy radius start stop)⟩
  | text t size =>
      cases hnext
      exact .inl ⟨rfl, h.of_differInPath (.text r t size)⟩
  | paint p =>
      cases p with
      | solid c =>
          cases hnext
          exact .inl ⟨rfl, h.idle, fun _ => ⟨_, rfl⟩⟩
      | linear start stop stops =>
          cases hnext
          exact .inl ⟨rfl, h.idle, nofun⟩
  | apply p => exact h.apply hnext
  | _ =>
      cases hnext
      exact .inl ⟨rfl, h.idle, h.plain⟩

end Pen

-- A step may hold a sketch, so both are by one recursion.
mutual

/-- What is known after a step. Of an operation that is only attempted, nothing is. -/
def Step.pen : Step ε → Pen → Option Pen
  | .call op, pen => pen.next op
  | .attempt _ _, _ => none
  | .saved body, pen => (Sketch.pen body pen).map fun pen' => { pen' with plain := pen.plain }
  | .refuse _, _ => none
  | .mark, pen => some pen

/-- What is known after a sketch, if something is. -/
def Sketch.pen : Sketch ε → Pen → Option Pen
  | [], pen => some pen
  | step :: steps, pen => (step.pen pen).bind (Sketch.pen steps)

end

namespace Sketch

variable {lift : CanvasError → ε} {sketch : Sketch ε} {r : Raster} {ops : List Op}
  {result : Except ε Unit} {pen pen' : Pen}

theorem calls_append (ops ops' : List Op) :
    (calls (ops ++ ops') : Sketch ε) = calls ops ++ calls ops' := List.map_append

theorem pen_append {sketch sketch' : Sketch ε} {mid : Pen} (h : Sketch.pen sketch pen = some mid)
    (h' : Sketch.pen sketch' mid = some pen') :
    Sketch.pen (sketch ++ sketch') pen = some pen' := by
  induction sketch generalizing pen with
  | nil =>
      rw [Sketch.pen] at h
      cases h
      exact h'
  | cons step steps ih =>
      rw [Sketch.pen, Option.bind_eq_some_iff] at h
      obtain ⟨first, hstep, hsteps⟩ := h
      rw [List.cons_append, Sketch.pen, Option.bind_eq_some_iff]
      exact ⟨first, hstep, ih hsteps⟩

theorem pen_saved {body : Sketch ε} (h : Sketch.pen body pen = some pen') :
    Sketch.pen [.saved body] pen = some { pen' with plain := pen.plain } := by
  rw [Sketch.pen, Step.pen, h]
  rfl

/-- **What is known after a tidy sketch holds** if what was known before did, and if it ends well; a
sketch that fails leaves no path. -/
theorem Draws.tells (h : Draws lift sketch r ops result) (htidy : Tidy sketch)
    (hpen : Sketch.pen sketch pen = some pen') (htells : pen.Tells r) :
    (result = .ok () ∧ pen'.Tells (Canvas.after ops r)) ∨
      ∃ e, result = .error e ∧ (Canvas.after ops r).Idle := by
  induction h generalizing pen pen' with
  | done =>
      rw [Sketch.pen] at hpen
      cases hpen
      exact .inl ⟨rfl, htells⟩
  | called hop _ ih =>
      cases htidy with
      | call _ hsteps =>
          rw [Sketch.pen, Step.pen, Option.bind_eq_some_iff] at hpen
          obtain ⟨mid, hnext, hrest⟩ := hpen
          rcases htells.perform hnext with ⟨-, hmid⟩ | ⟨e, herror, -⟩
          · exact ih hsteps hrest hmid
          · rw [hop] at herror
            cases herror
  | callFailed hop =>
      rw [Sketch.pen, Step.pen, Option.bind_eq_some_iff] at hpen
      obtain ⟨mid, hnext, -⟩ := hpen
      rcases htells.perform hnext with ⟨hok, -⟩ | ⟨e, -, hidle⟩
      · rw [hop] at hok
        cases hok
      · exact .inr ⟨_, rfl, hidle⟩
  | attempted => cases htidy
  | attemptFailed => cases htidy
  | saved hdraws _ ihbody ihsteps =>
      cases htidy with
      | saved hbody hsteps =>
          rw [Sketch.pen, Step.pen, Option.bind_eq_some_iff] at hpen
          obtain ⟨mid, hinside, hrest⟩ := hpen
          obtain ⟨last, hlast, rfl⟩ := Option.map_eq_some_iff.mp hinside
          -- The restore brings back the ink, and leaves the path that the body has left.
          have hbracket := Raster.after_bracket (hdraws.keeps hbody)
          rw [Canvas.after_append]
          refine ihsteps hsteps hrest ?_
          rcases ihbody hbody hlast ⟨htells.idle, htells.plain⟩ with ⟨-, hmid⟩ | ⟨e, herror, -⟩
          · rw [hbracket]
            exact ⟨hmid.idle, htells.plain⟩
          · cases herror
  | savedFailed hdraws ihbody =>
      cases htidy with
      | saved hbody _ =>
          rw [Sketch.pen, Step.pen, Option.bind_eq_some_iff] at hpen
          obtain ⟨mid, hinside, -⟩ := hpen
          obtain ⟨last, hlast, rfl⟩ := Option.map_eq_some_iff.mp hinside
          rcases ihbody hbody hlast ⟨htells.idle, htells.plain⟩ with ⟨hok, -⟩ | ⟨e, herror, hidle⟩
          · cases hok
          · rw [Raster.after_bracket (hdraws.keeps hbody)]
            exact .inr ⟨_, rfl, hidle⟩
  | refused => cases htidy
  | marked _ ih =>
      cases htidy with
      | mark hsteps =>
          rw [Sketch.pen, Step.pen] at hpen
          exact ih hsteps hpen htells

/-- A tidy sketch that uses up its path, whatever the ink is to begin with. -/
structure Spends (sketch : Sketch ε) : Prop where
  tidy : Tidy sketch
  spent : ∃ pen, Sketch.pen sketch ⟨true, false⟩ = some pen ∧ pen.idle

/-- **A sketch that uses up its path leaves nothing but layers** between a save and a restore,
however it ends. -/
theorem Spends.leaves_layers (hspends : Spends sketch) (hidle : r.Idle)
    (h : Draws lift sketch (Canvas.perform .save r).2 ops result) :
    ∃ layers, Canvas.after (.save :: ops ++ [.restore]) r = { r with layers := layers } := by
  obtain ⟨pen, hpen, hspent⟩ := hspends.spent
  have hafter : (Canvas.after ops (Canvas.perform .save r).2).Idle := by
    rcases h.tells hspends.tidy hpen ⟨fun _ => hidle, nofun⟩ with ⟨-, htells⟩ | ⟨e, -, hfailed⟩
    · exact htells.idle hspent
    · exact hfailed
  refine ⟨(Canvas.after ops (Canvas.perform .save r).2).layers, ?_⟩
  rw [Raster.after_bracket (h.keeps hspends.tidy), hafter.1, hafter.2, ← hidle.1, ← hidle.2]

end Sketch

end RideHud
