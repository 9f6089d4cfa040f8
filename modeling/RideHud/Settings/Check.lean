import RideHud.Decimal
import RideHud.Settings

/-!
# Checking settings

Settings are repaired before they are checked: a mount of zero stands for none, and any other is
scaled to norm one where its norm can be told. The checks come in a fixed order, and the first that
fails is reported: the ranges of single numbers, the order of the ends of the video, and whether
numbers without a range are finite.
-/

namespace RideHud.Settings

/-- The settings with a mount that is a rotation. -/
def repaired (s : Settings) : Settings :=
  let q := s.data.mount
  let norm := Float.sqrt (q.w * q.w + q.x * q.x + q.y * q.y + q.z * q.z)
  let mount :=
    if isUnset q then Quat.one
    else if norm.isFinite && 1e-12 < (norm - 1).abs then q.divide norm
    else q
  { s with data := { s.data with mount := mount } }

/-- What is wrong with settings. -/
inductive Problem where
  /-- Some numbers are out of range; the names of their fields. -/
  | range (fields : List String)
  /-- The video ends before it starts. -/
  | window (stop start : UInt64)
  /-- A number is not finite. -/
  | notFinite (field : String) (value : Float)
  deriving Repr

/-- The numbers with a range: the names of their fields, and whether they are in it. A number that
does not compare is in range if zero is. -/
def ranges (s : Settings) : List (String × Bool) :=
  [("booster.radius", !(s.booster.radius < 0)),
    ("data.pressure_coeff", !(s.data.smoothing < 0)),
    ("display.dpi", 0 < s.display.dpi),
    ("display.spi", 0 < s.display.spi),
    ("graph.max_g", 0 < s.graph.maxLoad),
    ("graph.redline_g", 0 < s.graph.redline),
    ("graph.window_us", 1 ≤ s.graph.window)]

/-- The fields whose numbers are out of range. -/
def outOfRange (s : Settings) : List String :=
  (s.ranges.filter fun (_, isInRange) => !isInRange).map (·.1)

/-- The numbers that have to be finite. -/
def finiteFields (s : Settings) : List (String × Float) :=
  [("hud.altitude_ground", s.hud.ground),
    ("data.pressure_coeff", s.data.smoothing),
    ("data.imu_orientation.w", s.data.mount.w),
    ("data.imu_orientation.x", s.data.mount.x),
    ("data.imu_orientation.y", s.data.mount.y),
    ("data.imu_orientation.z", s.data.mount.z),
    ("booster.radius", s.booster.radius)]

/-- The first thing that is wrong. -/
def problem? (s : Settings) : Option Problem :=
  if !s.outOfRange.isEmpty then some (.range s.outOfRange)
  else if s.video.last?.any fun stop => stop < s.video.start then
    some (.window s.video.stop s.video.start)
  else
    (s.finiteFields.find? fun (_, x) => !x.isFinite).map fun (name, x) => .notFinite name x

namespace Problem

/-- The field that a problem is reported at. -/
def field : Problem → String
  | .range _ => "config"
  | .window _ _ => "video.startoff / video.endoff"
  | .notFinite name _ => name

/-- What a problem says to the user, if it says more than where it is. -/
def detail : Problem → String
  | .range _ => ""
  | .window stop start => s!": endoff ({stop}) must be >= startoff ({start}) when set"
  | .notFinite _ x => ": must be finite, got " ++ Decimal.plain "" x

/-- What a problem says to the user. -/
def message (p : Problem) : String := s!"config validation error at '{p.field}'{p.detail}"

end Problem

end RideHud.Settings
