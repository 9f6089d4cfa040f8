import RideHud.Settings

/-!
# Intake

What happens to a sample between the recording and the HUD: samples that run back in time are
refused, the pressure is smoothed, times are shifted to the clock of the video, what lies outside
the video is dropped, and the axes of the sensor are turned to those of the gondola. The pressure
is smoothed before samples are dropped, so the window never changes what is kept.
-/

namespace RideHud

open scoped Scalar

namespace Intake

/-- What is done to samples. -/
structure Rule (α : Type) where
  /-- How far times are shifted. -/
  shift : Micros
  /-- The first time that is kept. -/
  start : Micros
  /-- The last time that is kept, if there is one. -/
  stop : Option Micros
  /-- The rotation from the gondola to the sensor, if they differ. -/
  mount : Option (Quat α)
  /-- How many shares the pressure has, of which the newest sample has one. -/
  smoothing : α
  deriving Repr, DecidableEq

/-- The rule that settings ask for. -/
def Rule.ofSettings (s : Settings) : Rule Float :=
  let mount := (Settings.effectiveMount s.data.mount).toUnit
  { shift := Micros.ofMillis s.data.start
    start := Micros.ofMillis s.video.start
    stop := s.video.last?.map Micros.ofMillis
    mount := if mount.angle == 0 then none else some mount
    smoothing := s.data.smoothing }

/-- A sample is older than the one before it. -/
structure Backwards where
  /-- The place of the sample among those that came in. -/
  index : Nat
  /-- The time of the sample before it. -/
  previous : Micros
  /-- Its own time. -/
  time : Micros
  deriving Repr, DecidableEq

/-- What is said about a sample that runs back in time. -/
def Backwards.message (e : Backwards) : String :=
  s!"sample {e.index} jumped back in time: {e.time}us < {e.previous}us"

end Intake

/-- The intake of one stream. -/
structure Intake (α : Type) where
  rule : Intake.Rule α
  /-- The smoothed pressure of the last sample that was not refused. -/
  pressure : Option α := none
  /-- The time of that sample. -/
  lastTime : Option Micros := none
  /-- How many samples came in. -/
  seen : Nat := 0
  deriving Repr, DecidableEq

namespace Intake

variable {α : Type} [Scalar α]

/-- The pressure `p`, smoothed after the pressure `previous`. -/
def smoothed (c : α) (previous : Option α) (p : α) : α :=
  match previous with
  | some q => if 0 < c then (q * (c - 1) + p) / c else p
  | none => p

/-- The sample seen from the gondola: vectors are turned back, the orientation is turned first by
the mount. -/
def unmount (mount : Quat α) (s : Sample α) : Sample α :=
  let back := mount.conjugate
  { s with
    accel := back.turn s.accel
    gyro := back.turn s.gyro
    mag := back.turn s.mag
    quat := s.quat * mount }

/-- Whether a time of the video is kept. -/
def Rule.keeps (rule : Rule α) (t : Micros) : Bool :=
  !(t < rule.start) && rule.stop.all fun stop => !(stop < t)

/-- What becomes of a sample that is not refused. -/
def accepted (intake : Intake α) (s : Sample α) : Option (Sample α) :=
  let s := { s with
    pressure := smoothed intake.rule.smoothing intake.pressure s.pressure
    time := s.time.after intake.rule.shift }
  if intake.rule.keeps s.time then
    some (match intake.rule.mount with
      | some mount => unmount mount s
      | none => s)
  else none

/-- Take in a sample: it is refused, dropped or kept. -/
def process (intake : Intake α) (s : Sample α) :
    Except Backwards (Option (Sample α)) × Intake α :=
  let seen := intake.seen + 1
  match intake.lastTime with
  | some previous =>
    if s.time < previous then
      (.error ⟨intake.seen, previous, s.time⟩, { intake with seen := seen })
    else (.ok (intake.accepted s), advance seen)
  | none => (.ok (intake.accepted s), advance seen)
where
  /-- The intake after the sample, which is the latest now. -/
  advance (seen : Nat) : Intake α :=
    { rule := intake.rule
      pressure := some (smoothed intake.rule.smoothing intake.pressure s.pressure)
      lastTime := some s.time
      seen := seen }

/-- Take in samples one after the other, going on after those that are refused. -/
def processEach (intake : Intake α) : List (Sample α) → List (Except Backwards (Option (Sample α)))
  | [] => []
  | s :: ss => (intake.process s).1 :: processEach (intake.process s).2 ss

/-- Take in samples until one is refused; the kept ones, if none is. -/
def processAll (intake : Intake α) : List (Sample α) → Except Backwards (List (Sample α))
  | [] => .ok []
  | s :: ss =>
    match intake.process s with
    | (.error e, _) => .error e
    | (.ok kept, intake) => (processAll intake ss).map (kept.toList ++ ·)

end Intake

end RideHud
