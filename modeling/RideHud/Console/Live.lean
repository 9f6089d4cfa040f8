import RideHud.Console.Film

/-!
# Live samples

Samples of a stream are taken in as they are decoded, and each one that is kept becomes current and
makes a frame. Samples that run back in time are passed over.
-/

namespace RideHud.Console

/-- A film of a stream. -/
structure LiveFilm where
  film : Film
  intake : Intake Float

namespace LiveFilm

variable {m : Type → Type} [Monad m] [Host m]

/-- Make a frame of a sample, if it is kept. -/
def handle (live : LiveFilm) (sample : RawSample) : m LiveFilm := do
  match live.intake.process sample.measured with
  | (.ok (some kept), intake) =>
    let film := { live.film with
      session := live.film.session.addSample kept
      context := live.film.context.push kept }
    return ⟨← film.addFrame, intake⟩
  | (_, intake) => return { live with intake := intake }

/-- Make frames of what is left of a stream. -/
def run (live : LiveFilm) (d : Wire.Decoder) (s : Wire.Source) :
    m (Except Wire.StreamError Unit × Wire.Decoder × LiveFilm) := do
  match _h : (d.next s).result with
  | .ok (.sample x) => run (← live.handle x) (d.next s).decoder (d.next s).rest
  | .ok .wouldBlock => run live (d.next s).decoder (d.next s).rest
  | .ok .ended => return (.ok (), (d.next s).decoder, live)
  | .error e => return (.error e, (d.next s).decoder, live)
termination_by s.size
decreasing_by
  · exact Wire.Decoder.size_rest_next_lt d s _ _h nofun
  · exact Wire.Decoder.size_rest_next_lt d s _ _h nofun

/-- Start a film, and a folder for its frames if they are kept. -/
def start (r : LiveRequest) (settings : Settings) : m (Except Failure LiveFilm) := do
  let writer : Except String (Option FrameWriter) ← match r.folder with
    | none => pure (.ok none)
    | some folder => Except.map some <$> FrameWriter.create folder "live_"
  return do
    let writer ← writer.mapError .frameFolder
    let ctx ← (Context.create .usual settings []).mapError .setup
    let canvas ← (Raster.make r.width r.height).mapError .canvas
    return ⟨{ context := ctx, canvas := canvas, writer := writer }, { rule := .ofSettings settings }⟩

/-- The report of a film whose stream has ended. -/
def report (live : LiveFilm) (d : Wire.Decoder) : Report :=
  let tally := d.tally.getD {}
  let counts := s!"({tally.bytes} bytes, {tally.blocked} waits)"
  { output := .lines (live.film.session.text.splitOn "\n" ++
      [s!"Decoded {tally.frames} frames {counts}"]) }

end LiveFilm

/-- Draw the samples of the input. -/
def live {m : Type → Type} [Monad m] [Host m] (r : LiveRequest) : m Report := do
  match ← loadSettings r.config with
  | .error e => return { failure := some e }
  | .ok settings =>
    match ← LiveFilm.start r settings with
    | .error e => return { failure := some e }
    | .ok live =>
      match ← live.run (.fresh true) (← Host.input) with
      | (.error e, _, _) => return { failure := some (.stream e) }
      | (.ok (), d, live) => return live.report d

end RideHud.Console
