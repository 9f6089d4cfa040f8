import RideHud.Hud.Swingboat

/-!
# Frames of the HUD

A context draws frames of one recording: it knows the current sample, has the strategy of the mode
and counts what becomes of the frames. A frame starts with a clear surface. If there is a current
sample and a strategy, the content and then the overlay are drawn, each between a save and a restore,
until one fails.
-/

namespace RideHud

/-- A HUD at work. -/
structure Context where
  view : View
  /-- The name of the strategy and its scene, if the mode has one. -/
  scene : Option (String × Scene) := none
  cursor : Cursor := {}
  /-- Frames that were drawn, modulo `2 ^ 64`. -/
  rendered : UInt64 := 0
  /-- Frames without a current sample, modulo `2 ^ 64`. -/
  empty : UInt64 := 0
  /-- Frames of which a stage failed, modulo `2 ^ 64`. -/
  failed : UInt64 := 0

namespace Context

/-- The HUD of a recording, unless its strategy is not ready. -/
def create (registry : Registry) (settings : Settings) (samples : List (Sample Float)) :
    Except HudError Context :=
  let view : View := { settings := settings, samples := samples }
  match registry.get? settings.hud.mode with
  | none => .ok { view := view }
  | some strategy =>
    match strategy.prepare view with
    | .ok scene => .ok { view := view, scene := some (strategy.name, scene) }
    | .error e => .error (.notReady settings.hud.mode e)

/-! ## Current sample -/

/-- Where the search for a time starts: at the place found for an earlier time, or else in front. -/
def hint (ctx : Context) (time : Micros) : Nat :=
  match ctx.view.source with
  | .recorded place earlier => if time < earlier then 0 else place
  | _ => 0

/-- Make a sample source current. -/
def setSource (ctx : Context) (source : SampleSource) : Context :=
  { ctx with view := { ctx.view with source := source } }

/-- Make the sample that follows a time current. Nothing changes if there is none. -/
def seek (ctx : Context) (time : Micros) : Except HudError Nat × Context :=
  if ctx.view.samples.isEmpty then (.error .noSamples, ctx)
  else
    match Timeline.lookup ctx.view.samples (ctx.hint time) time with
    | .error e => (.error (.lookup e), ctx)
    | .ok place => (.ok place, ctx.setSource (.recorded place time))

/-- Make a sample current that comes from outside. -/
def push (ctx : Context) (sample : Sample Float) : Context := ctx.setSource (.pushed sample)

/-! ## Drawing -/

variable {C : Type} [Canvas C]

/-- Draw a stage between a save and a restore. -/
def drawStage (s : Stage) (sketch : Sketch HudError) (c : C) : Except HudError Unit × C :=
  let (result, c) := Sketch.run .canvas [.saved sketch] c
  (result.mapError (.stage s), c)

/-- Draw both stages of a frame. The cursor moves where the overlay is marked, whether or not a later
step fails. -/
def drawScene (ctx : Context) (scene : Scene) (c : C) : Except HudError Unit × Cursor × C :=
  match drawStage .content (scene.content ctx.view (Canvas.size c)) c with
  | (.error e, c) => (.error e, ctx.cursor, c)
  | (.ok (), c) =>
    let (sketch, found) := scene.overlay ctx.view (Canvas.size c) ctx.cursor
    let cursor := if Sketch.reaches .canvas [.saved sketch] c then found else ctx.cursor
    let (result, c) := drawStage .overlay sketch c
    (result, cursor, c)

/-- Draw a frame. -/
def render (ctx : Context) (c : C) : Except HudError Unit × Context × C :=
  let c := (Canvas.perform .clear c).2
  if ctx.view.current?.isNone then (.ok (), { ctx with empty := ctx.empty + 1 }, c)
  else
    match ctx.scene with
    | none => (.ok (), { ctx with rendered := ctx.rendered + 1 }, c)
    | some (_, scene) =>
      match ctx.drawScene scene c with
      | (.ok (), cursor, c) =>
        (.ok (), { ctx with rendered := ctx.rendered + 1, cursor := cursor }, c)
      | (.error e, cursor, c) =>
        (.error e, { ctx with failed := ctx.failed + 1, cursor := cursor }, c)

end Context

end RideHud
