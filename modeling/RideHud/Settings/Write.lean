import RideHud.Settings
import RideHud.Text.Json

/-!
# Writing settings

All settings are written, in the order of the sections. In TOML the plain values of a section come
before the tables in it, and numbers have a point and no exponent.
-/

namespace RideHud.Settings

/-- The settings as a JSON value. -/
def toJson (s : Settings) : Json :=
  let q := s.data.mount
  .object [
    ("video", .object [("startoff", .ofNat s.video.start.toNat),
      ("endoff", .ofNat s.video.stop.toNat)]),
    ("data", .object [("startoff", .ofNat s.data.start.toNat),
      ("imu_orientation", .object [("w", .ofFloat q.w), ("x", .ofFloat q.x), ("y", .ofFloat q.y),
        ("z", .ofFloat q.z)]),
      ("pressure_coeff", .ofFloat s.data.smoothing)]),
    ("hud", .object [("mode", .ofString s.hud.mode.name),
      ("altitude_ground", .ofFloat s.hud.ground)]),
    ("booster", .object [("radius", .ofFloat s.booster.radius)]),
    ("swingboat", .object [("position", .ofString s.swingboat.position.name)]),
    ("orientation", .object [("mode", .ofString s.orientation.mode.name)]),
    ("display", .object [("dpi", .ofFloat s.display.dpi), ("spi", .ofFloat s.display.spi)]),
    ("graph", .object [("window_us", .ofNat s.graph.window.toNat),
      ("max_g", .ofFloat s.graph.maxLoad), ("redline_g", .ofFloat s.graph.redline)])]

/-- A number in TOML. -/
def tomlNumber (x : Float) : String := if x.isNaN then "nan" else Decimal.plain ".0" x

/-- A table in TOML, with the texts of its values. -/
def tomlTable (name : String) (entries : List (String × String)) : String :=
  s!"[{name}]\n" ++ String.join (entries.map fun (key, v) => s!"{key} = {v}\n")

/-- The settings in TOML. -/
def toToml (s : Settings) : String :=
  let q := s.data.mount
  "\n".intercalate [
    tomlTable "video" [("startoff", toString s.video.start), ("endoff", toString s.video.stop)],
    tomlTable "data" [("startoff", toString s.data.start),
      ("pressure_coeff", tomlNumber s.data.smoothing)],
    tomlTable "data.imu_orientation" [("w", tomlNumber q.w), ("x", tomlNumber q.x),
      ("y", tomlNumber q.y), ("z", tomlNumber q.z)],
    tomlTable "hud" [("mode", Json.quoted s.hud.mode.name),
      ("altitude_ground", tomlNumber s.hud.ground)],
    tomlTable "booster" [("radius", tomlNumber s.booster.radius)],
    tomlTable "swingboat" [("position", Json.quoted s.swingboat.position.name)],
    tomlTable "orientation" [("mode", Json.quoted s.orientation.mode.name)],
    tomlTable "display" [("dpi", tomlNumber s.display.dpi), ("spi", tomlNumber s.display.spi)],
    tomlTable "graph" [("window_us", toString s.graph.window),
      ("max_g", tomlNumber s.graph.maxLoad), ("redline_g", tomlNumber s.graph.redline)]]

end RideHud.Settings
