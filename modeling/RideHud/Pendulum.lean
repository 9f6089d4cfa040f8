import RideHud.Sample

/-!
# A synthetic swing ride

An undamped pendulum that starts upright at full speed. The orientation turns about the first axis,
and the angular rate, the load along the arm and the air pressure go with it.
-/

namespace RideHud

/-- A pendulum and how it is recorded. -/
structure Pendulum where
  /-- Samples per second. -/
  rate : Float := 100
  /-- How long it is recorded. -/
  seconds : Float := 10
  /-- How long a swing takes, in seconds. -/
  period : Float := 10
  /-- The largest angle, in degrees. -/
  amplitude : Float := 60
  /-- The length of the arm, in metres. -/
  radius : Float := 12
  deriving Repr, DecidableEq

namespace Pendulum

/-- The angle at a time in seconds, in degrees. -/
def angle (p : Pendulum) (t : Float) : Float :=
  p.amplitude * Float.sin (Elementary.turn * t / p.period)

/-- The number of samples. -/
def length (p : Pendulum) : Nat := (Scalar.atLeast 0 (p.seconds * p.rate)).toUInt64.toNat

/-- The change of pressure for a metre of height, in hectopascals. -/
def pressureLapse : Float := 0.12

/-- The `i`-th sample. -/
def sample (p : Pendulum) (i : Nat) : Sample Float :=
  let t := Float.ofNat i / p.rate
  let theta := Elementary.radians (p.angle t)
  let amplitude : Float := Elementary.radians p.amplitude
  let omega := p.amplitude * Elementary.turn / p.period *
    Float.cos (Elementary.turn * t / p.period)
  let height := p.radius * (1 - Float.cos theta)
  { time := (Float.ofNat i * 1000000 / p.rate).round.toUInt64
    accel := ⟨0, 0, 3 * Float.cos theta - 2 * Float.cos amplitude⟩
    gyro := ⟨omega, 0, 0⟩
    mag := ⟨0, 20, -40⟩
    temperature := 20
    pressure := 1013.25 - pressureLapse * height
    quat := ⟨Float.cos (theta / 2), Float.sin (theta / 2), 0, 0⟩ }

/-- The recording. -/
def samples (p : Pendulum) : List (Sample Float) := (List.range p.length).map p.sample

end Pendulum

end RideHud
