import RideHud.Console.Command
import RideHud.Console.Files
import RideHud.Console.Host
import RideHud.Hud.Context
import RideHud.Stats.Session

/-!
# Films

A film is a sequence of frames that are drawn on one canvas and written to one folder. A frame that
cannot be drawn or written is counted, and the film goes on. The frames of a recording are taken at
equal steps of time, up to the end of the recording.
-/

namespace RideHud.Console

/-- A film in the making. -/
structure Film where
  context : Context
  canvas : Raster
  /-- What writes the frames, if they are kept. -/
  writer : Option FrameWriter
  session : Session Float := .empty

namespace Film

variable {m : Type → Type} [Monad m]

/-- What becomes of a frame that was drawn. -/
def drawnOutcome (ctx : Context) : FrameOutcome :=
  if ctx.view.current?.isSome then .rendered else .empty

/-- Draw the current sample and write the frame. -/
def shoot [Storage m] (film : Film) : m (FrameOutcome × Film) := do
  let (result, ctx, canvas) := film.context.render film.canvas
  let film := { film with context := ctx, canvas := canvas }
  match result, film.writer with
  | .error _, _ => return (.failed, film)
  | .ok (), none => return (.rendered, film)
  | .ok (), some writer =>
    let (written, writer) ← writer.write canvas
    let film := { film with writer := some writer }
    match written with
    | .ok _ => return (drawnOutcome ctx, film)
    | .error _ => return (.failed, film)

variable [Host m]

/-- Make a frame of the current sample, and count it. -/
def addFrame (film : Film) : m Film := do
  let started ← Host.millis
  let (outcome, film) ← film.shoot
  let stopped ← Host.millis
  return { film with session := film.session.addFrame outcome (stopped - started) }

/-- The time of a frame, if it can be told. -/
def frameTime? (start step : Micros) (i : Nat) : Option Micros :=
  let time := i * step.toNat + start.toNat
  if time < UInt64.size then some time.toUInt64 else none

/-- Make up to `n` frames, the first of which is the `i`-th one, up to the end of the recording. -/
def addFrames (start step : Micros) (i : Nat) : (n : Nat) → Film → m Film
  | 0, film => return film
  | n + 1, film =>
    match frameTime? start step i with
    | none => return film
    | some time =>
      match film.context.seek time with
      | (.error _, ctx) => return { film with context := ctx }
      | (.ok _, ctx) => do
        addFrames start step (i + 1) n (← addFrame { film with context := ctx })

/-- The number of frames that were written. -/
def written (film : Film) : Nat := (film.writer.map (·.written)).getD 0

/-- The report of a film in a folder. -/
def report (film : Film) (folder : String) : Report where
  output := .lines (film.session.text.splitOn "\n" ++
    [s!"Wrote {film.written} frames to {folder}"])
  failure :=
    if 0 < film.session.failedFrames then
      some (.lostFrames film.session.failedFrames film.session.frames)
    else none

end Film

variable {m : Type → Type} [Monad m] [Host m]

/-- Draw a single frame to a file. -/
def renderPicture (r : RenderRequest) (ctx : Context) (canvas : Raster) : m Report := do
  match ctx.seek r.start with
  | (.error e, _) => return { failure := some (.noSampleAt r.start e) }
  | (.ok _, ctx) =>
    match ctx.render canvas with
    | (.error e, _, _) => return { failure := some (.hud e) }
    | (.ok (), _, canvas) =>
      let saved ← Picture.save r.out canvas
      return .ofResult ((saved.map fun _ => .lines ["Wrote " ++ r.out]).mapError .picture)

/-- Draw frames to a folder. -/
def renderFilm (r : RenderRequest) (ctx : Context) (canvas : Raster) : m Report := do
  match ← FrameWriter.create r.folder "hud_" with
  | .error reason => return { failure := some (.create r.folder reason) }
  | .ok writer =>
    let film : Film := { context := ctx, canvas := canvas, writer := some writer }
    return (← film.addFrames r.start r.step 0 r.frames).report r.folder

/-- Draw frames of a recording. -/
def render (r : RenderRequest) : m Report := do
  if r.frames = 0 then
    return { failure := some (.badArgument "--frames must be at least 1") }
  match ← loadSettings r.config with
  | .error e => return { failure := some e }
  | .ok settings =>
    let samples ← loadSamples r.data (some settings)
    let prepared : Except Failure (Context × Raster) := do
      let ctx ← (Context.create .usual settings (← samples)).mapError .setup
      let canvas ← (Raster.make r.width r.height).mapError .canvas
      return (ctx, canvas)
    match prepared with
    | .error e => return { failure := some e }
    | .ok (ctx, canvas) =>
      if r.frames = 1 then renderPicture r ctx canvas else renderFilm r ctx canvas

end RideHud.Console
