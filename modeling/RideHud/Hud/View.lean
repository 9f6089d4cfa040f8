import RideHud.Draw.Canvas
import RideHud.Settings
import RideHud.Timeline.Bucket
import RideHud.Timeline.Lookup

/-!
# What the HUD sees

The HUD shows a current sample, which is either the one that follows a time of the recording or one
that was pushed as it came in. `HudError` says why a frame cannot be drawn, and by which stage.
-/

namespace RideHud

/-! ## Current sample -/

/-- Where the current sample comes from. -/
inductive SampleSource where
  /-- There is none yet. -/
  | none
  /-- From a place of the recording, which was found for a time. -/
  | recorded (place : Nat) (time : Micros)
  /-- From outside. -/
  | pushed (sample : Sample Float)
  deriving Repr, DecidableEq

/-- What the HUD sees. -/
structure View where
  settings : Settings
  /-- The recording. -/
  samples : List (Sample Float)
  source : SampleSource := .none
  deriving Repr

namespace View

/-- The current sample. -/
def current? (v : View) : Option (Sample Float) :=
  match v.source with
  | .none => none
  | .recorded place _ => v.samples[place]?
  | .pushed sample => some sample

/-- The place of the current sample, if it comes from the recording. -/
def place? (v : View) : Option Nat :=
  match v.source with
  | .recorded place _ => some place
  | _ => none

/-- How drawings are scaled. -/
def density (v : View) : Float := v.settings.display.pixels 1

/-- How text is scaled. -/
def textDensity (v : View) : Float := v.settings.display.textPixels 1

end View

/-! ## Failures -/

/-- A stage of drawing a frame. -/
inductive Stage where
  /-- The ride. -/
  | content
  /-- What is laid over it. -/
  | overlay
  deriving Repr, DecidableEq

/-- The name of a stage. -/
def Stage.name : Stage → String
  | .content => "content"
  | .overlay => "overlay"

/-- Why the HUD fails. -/
inductive HudError where
  /-- There is no recording. -/
  | noSamples
  /-- A stage needs a current sample. -/
  | noCurrentSample
  /-- There is no sample for a time. -/
  | lookup (e : Timeline.LookupError)
  /-- The recording cannot be cut into buckets. -/
  | buckets (e : Timeline.BucketError)
  /-- The canvas failed. -/
  | canvas (e : CanvasError)
  /-- The strategy of a mode is not ready. -/
  | notReady (mode : Mode) (cause : HudError)
  /-- A stage of a frame failed. -/
  | stage (s : Stage) (cause : HudError)
  deriving Repr, DecidableEq

namespace HudError

/-- What an error says to the user. -/
def message : HudError → String
  | noSamples => "no sample array attached"
  | noCurrentSample => "no current sample"
  | lookup e => e.message
  | buckets e => e.message
  | canvas e => e.message
  | notReady mode cause => s!"failed to initialise '{mode.name}' strategy: {cause.message}"
  | stage s cause => s!"{s.name} stage failed: {cause.message}"

/-- The messages of an error and of what caused it. -/
def chain (e : HudError) : List String :=
  match e with
  | notReady _ cause => e.message :: cause.chain
  | stage _ cause => e.message :: cause.chain
  | e => [e.message]

end HudError

end RideHud
