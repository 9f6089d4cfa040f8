import RideHud.Console.Files

/-!
# Verdict on settings

Settings are valid if they can be loaded. Valid settings can still be odd, which is told in warnings.
-/

namespace RideHud.Console

/-- What is told about settings: what they are, or why they cannot be used. -/
structure Verdict where
  path : String
  result : Except String Settings

namespace Verdict

/-- The verdict on a file that was looked for. -/
def ofFound (path : String) (found : Found) : Verdict where
  path := path
  result := match found with
    | .nothing => .error ("File not found: " ++ path)
    | .unreadable reason => (Settings.loadFile path (.error reason)).mapError (·.message)
    | .file content => (Settings.loadFile path (.ok content)).mapError (·.message)

/-- What is odd about settings. -/
def warnings (s : Settings) : List String :=
  let plain := Decimal.plain ""
  let smoothing := s.data.smoothing
  let mode := match s.hud.mode with
    | .normal => ["hud.mode is normal - frames are cleared but nothing is drawn"]
    | .booster =>
      if s.booster.radius == 0 then ["booster.radius is 0 - arm geometry is degenerate"] else []
    | .swingboat => []
  let pressure := if 0 < smoothing && smoothing < 1 then
      [s!"data.pressure_coeff {plain smoothing} is below 1 - " ++
        "smoothing amplifies pressure changes"]
    else []
  let graph := if s.graph.redline < s.graph.maxLoad then
      [s!"graph.redline_g {plain s.graph.redline} is below graph.max_g {plain s.graph.maxLoad} - " ++
        "the graph top never reaches full red"]
    else []
  mode ++ pressure ++ graph

/-- The verdict as text. -/
def toLines (v : Verdict) : List String :=
  let plain := Decimal.plain ""
  match v.result with
  | .error reason =>
    [s!"✗ Configuration is invalid: {v.path}", "", s!"  Error: {reason}"]
  | .ok s =>
    let stop := match s.video.last? with
      | some stop => s!"{stop} ms"
      | none => "end"
    [s!"✓ Configuration is valid: {v.path}",
      "",
      s!"  HUD mode: {s.hud.mode.name}",
      s!"  Video window: {s.video.start} ms .. {stop}",
      s!"  Data offset: {s.data.start} ms",
      s!"  Density: {plain s.display.dpi} dpi / {plain s.display.spi} spi"] ++
    (if (warnings s).isEmpty then [] else
      "" :: "⚠ Warnings:" :: (warnings s).map ("  - " ++ ·))

/-- The verdict as JSON. -/
def toJson (v : Verdict) : Json :=
  let word (n : UInt64) := Json.ofNat n.toNat
  match v.result with
  | .error reason =>
    .object [("valid", .bool false), ("config_path", .ofString v.path),
      ("error", .ofString reason)]
  | .ok s =>
    .object ([("valid", .bool true), ("config_path", .ofString v.path)] ++
      (if (warnings s).isEmpty then [] else
        [("warnings", .array ((warnings s).map Json.ofString))]) ++
      [("summary", .object
        [("hud_mode", .ofString s.hud.mode.name),
          ("video_window_ms", .array [word s.video.start, (s.video.last?.map word).getD .null]),
          ("data_offset_ms", word s.data.start),
          ("dpi", .ofFloat s.display.dpi),
          ("spi", .ofFloat s.display.spi)])])

/-- The report of a verdict, which is written in either case. -/
def report (v : Verdict) (json : Bool) : Report where
  output := if json then .json v.toJson else .lines v.toLines
  failure := match v.result with
    | .ok _ => none
    | .error _ => some .invalidSettings

end Verdict

/-- Check settings. -/
def validate {m : Type → Type} [Monad m] [Storage m] (path : String) (json : Bool) : m Report := do
  return (Verdict.ofFound path (← Storage.find path)).report json

end RideHud.Console
