import RideHud.Console.Files

/-!
# Summary of a recording

How long a recording is, how often it was sampled, and how high load and altitude went. The altitude
is measured from the ground.
-/

namespace RideHud.Console

/-- What is told about a recording. -/
structure Summary where
  path : String
  samples : Nat
  start : Micros
  stop : Micros
  /-- The time from the first sample to the last one. -/
  span : Micros
  /-- The altitude that others are measured from. -/
  ground : Float
  lowest : Float
  highest : Float
  peakLoad : Float
  mode : Option Mode

namespace Summary

/-- The summary of some samples. -/
def ofSamples (path : String) (settings : Option Settings) (samples : List (Sample Float)) :
    Except Failure Summary := do
  let start := (samples.head?.map (·.time)).getD 0
  let stop := (samples.getLast?.map (·.time)).getD 0
  let span ← duration start stop
  let ground := (settings.map (·.hud.ground)).getD 0
  let altitudes := samples.map fun s => s.altitude - ground
  return {
    path := path
    samples := samples.length
    start := start
    stop := stop
    span := span
    ground := ground
    lowest := altitudes.foldl Scalar.least (1.0 / 0.0)
    highest := altitudes.foldl Scalar.greatest (-1.0 / 0.0)
    peakLoad := (samples.map Sample.load).foldl Scalar.greatest 0
    mode := settings.map (·.hud.mode) }

/-- The span in seconds. -/
def seconds (s : Summary) : Float := s.span.toScalar / 1000000

/-- The number of samples per second. -/
def rate (s : Summary) : Float :=
  if 0 < s.seconds then Float.ofNat (s.samples - 1) / s.seconds else 0

/-- The summary as text. -/
def toLines (s : Summary) : List String :=
  let fixed := Decimal.fixed
  let metres (x : Float) := fixed 1 x ++ " m"
  ["Recording: " ++ s.path,
    "",
    s!"  Samples: {s.samples}",
    s!"  Span: {s.start}us .. {s.stop}us ({fixed 3 s.seconds}s)",
    s!"  Rate: {fixed 1 s.rate} Hz",
    s!"  Peak load: {fixed 2 s.peakLoad} G",
    s!"  Altitude: {metres s.lowest} .. {metres s.highest} (ground {metres s.ground})"] ++
  (s.mode.map fun mode => "  HUD mode: " ++ mode.name).toList

/-- The summary as JSON. -/
def toJson (s : Summary) : Json :=
  .object ([("path", .ofString s.path),
    ("samples", .ofNat s.samples),
    ("start_us", .ofNat s.start.toNat),
    ("end_us", .ofNat s.stop.toNat),
    ("duration_s", .ofFloat s.seconds),
    ("rate_hz", .ofFloat s.rate),
    ("peak_g", .ofFloat s.peakLoad),
    ("altitude", .object [("ground_m", .ofFloat s.ground), ("min_m", .ofFloat s.lowest),
      ("max_m", .ofFloat s.highest)])] ++
  (s.mode.map fun mode => ("hud_mode", Json.ofString mode.name)).toList)

end Summary

/-- Sum up a recording. -/
def summarize {m : Type → Type} [Monad m] [Storage m] (data : String) (config : Option String)
    (json : Bool) : m Report := do
  let settings : Except Failure (Option Settings) ← match config with
    | none => pure (.ok none)
    | some path => Except.map some <$> loadSettings path
  match settings with
  | .error e => return { failure := some e }
  | .ok settings =>
    let samples ← loadSamples data settings
    return .ofResult do
      let s ← Summary.ofSamples data settings (← samples)
      return if json then .json s.toJson else .lines s.toLines

end RideHud.Console
