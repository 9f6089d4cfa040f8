import RideHud.Console.Command
import RideHud.Console.Files
import RideHud.Series.Landmarks
import RideHud.Series.Line
import RideHud.Series.Peaks

/-!
# Findings in a recording

An analysis of one field of a recording finds marked samples, or the line that fits best against the
time in seconds.
-/

namespace RideHud.Console

/-- The name of a field. -/
def fieldName : Field → String
  | .accel => "accel"
  | .gyro => "gyro"
  | .mag => "mag"
  | .quat => "quat"
  | .temperature => "temperature"
  | .pressure => "pressure"

/-- A sample that is marked. -/
structure Landmark where
  index : Nat
  time : Micros
  value : Float
  mark : Mark

/-- What an analysis finds. -/
inductive Findings where
  | landmarks (method : Method) (field : Field) (found : List Landmark)
  | line (field : Field) (fit : Series.Line Float)

namespace Findings

/-- The marks of a series against the time in seconds, unless a line is asked for. -/
def marks (r : AnalysisRequest) (values : List Float) (points : List (Float × Float)) :
    Except Failure (List Mark) :=
  match r.method with
  | .lls => .ok []
  | .ampd => (Series.extremes (if r.troughs then .trough else .peak) values).mapError .shortage
  | .threshold =>
    (Series.OutlierRule.marks? ⟨r.lag, r.threshold, r.influence⟩ values).mapError .outliers
  | .momentum => .ok (Series.MomentumRule.marks ⟨r.friction, r.minMomentum⟩ points)

/-- The samples that are marked. -/
def marked (samples : List (Sample Float)) (values : List Float) (marks : List Mark) :
    List Landmark :=
  ((samples.zip values).zip marks).zipIdx.filterMap fun (((s, value), mark), i) =>
    if mark.isMarked then some ⟨i, s.time, value, mark⟩ else none

/-- Analyse samples. -/
def ofSamples (r : AnalysisRequest) (samples : List (Sample Float)) : Except Failure Findings := do
  let s ← (Series.ofSamples? r.field samples).mapError .series
  let points := (samples.map fun t => t.time.seconds).zip s.values
  if r.method = .lls then return .line r.field (.fit points)
  else return .landmarks r.method r.field (marked samples s.values (← marks r s.values points))

/-- A text with blanks behind it up to a width. -/
def leftAligned (width : Nat) (s : String) : String := s.pushn ' ' (width - s.length)

/-- A text with blanks in front of it up to a width. -/
def rightAligned (width : Nat) (s : String) : String := "".pushn ' ' (width - s.length) ++ s

/-- A landmark as a line of text. -/
def landmarkLine (l : Landmark) : String :=
  let sign := if 0 < l.mark.toInt then "▲" else "▼"
  let index := leftAligned 6 (toString l.index)
  let time := rightAligned 12 (toString l.time)
  let value := Decimal.fixed 4 l.value
  s!"  {sign} #{index} {time}us  {value}"

/-- The findings as text. -/
def toLines : Findings → List String
  | .line field fit =>
    [s!"Least-squares fit of {fieldName field} against time (s)",
      "  slope: " ++ Decimal.fixed 6 fit.slope,
      "  intercept: " ++ Decimal.fixed 6 fit.intercept]
  | .landmarks method field found =>
    s!"{method.name} on {fieldName field}: {found.length} landmarks" :: found.map landmarkLine

/-- The findings as JSON. -/
def toJson : Findings → Json
  | .line field fit =>
    .object [("kind", .ofString "line"), ("field", .ofString (fieldName field)),
      ("slope", .ofFloat fit.slope), ("intercept", .ofFloat fit.intercept)]
  | .landmarks method field found =>
    .object [("kind", .ofString "landmarks"), ("method", .ofString method.name),
      ("field", .ofString (fieldName field)),
      ("landmarks", .array (found.map fun l => .object
        [("index", .ofNat l.index), ("time_us", .ofNat l.time.toNat),
          ("value", .ofFloat l.value), ("flag", .ofInt l.mark.toInt)]))]

end Findings

/-- Analyse a recording. -/
def analyze {m : Type → Type} [Monad m] [Storage m] (r : AnalysisRequest) : m Report := do
  let samples ← loadSamples r.data none
  return .ofResult do
    let found ← Findings.ofSamples r (← samples)
    return if r.json then .json found.toJson else .lines found.toLines

end RideHud.Console
