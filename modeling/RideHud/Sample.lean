import RideHud.Geometry.Quat

/-!
# Samples

A sample is one reading of the inertial sensor on board, with its time on the sensor's clock in
microseconds. `Stamped` is all that a search by time needs to know of a record.
-/

namespace RideHud

open scoped Scalar

/-- A time or a duration in microseconds. -/
abbrev Micros := UInt64

namespace Micros

/-- The latest time that can be told. -/
def latest : Micros := 0xffffffffffffffff

/-- The time `d` after `t`, or the latest time if there is none. -/
def after (t d : Micros) : Micros := if latest - t < d then latest else t + d

/-- The time `d` before `t`, or zero if there is none. -/
def before (t d : Micros) : Micros := if t < d then 0 else t - d

/-- The time from an earlier time to a later one. There is none the other way round. -/
def since? (later earlier : Micros) : Option Micros :=
  if later < earlier then none else some (later - earlier)

/-- A duration given in milliseconds, or the latest time if it is longer than that. -/
def ofMillis (ms : UInt64) : Micros := if latest / 1000 < ms then latest else ms * 1000

/-- The distance between two times. -/
def distance (a b : Micros) : Micros := if a < b then b - a else a - b

/-- A time as a number of microseconds. -/
def toScalar {α : Type} [Scalar α] (t : Micros) : α := Nat.cast t.toNat

/-- A time as a number of seconds. -/
def seconds {α : Type} [Scalar α] (t : Micros) : α := toScalar t / 1000000

end Micros

/-- Records with a time. -/
class Stamped (β : Type) where
  /-- When the record was taken. -/
  time : β → Micros

/-- One reading of the sensor. -/
structure Sample (α : Type) where
  /-- When it was taken. -/
  time : Micros
  /-- Acceleration, in units of standard gravity. -/
  accel : Vec α
  /-- Angular rate, in degrees per second. -/
  gyro : Vec α
  /-- Magnetic field, in microteslas. -/
  mag : Vec α
  /-- Temperature, in degrees Celsius. -/
  temperature : α
  /-- Air pressure, in hectopascals. -/
  pressure : α
  /-- Orientation. -/
  quat : Quat α
  deriving Repr, DecidableEq

namespace Sample

instance {α : Type} : Stamped (Sample α) := ⟨Sample.time⟩

/-- The fifteen measured numbers, in the order in which they are recorded. -/
def toList {α : Type} (s : Sample α) : List α :=
  s.accel.toList ++ s.gyro.toList ++ s.mag.toList ++ [s.temperature, s.pressure] ++ s.quat.toList

/-- Apply a function to each measured number. -/
def map {α β : Type} (f : α → β) (s : Sample α) : Sample β where
  time := s.time
  accel := s.accel.map f
  gyro := s.gyro.map f
  mag := s.mag.map f
  temperature := f s.temperature
  pressure := f s.pressure
  quat := ⟨f s.quat.w, f s.quat.x, f s.quat.y, f s.quat.z⟩

/-- A reading of nothing at the start of the clock. -/
def zero {α : Type} [Scalar α] : Sample α := ⟨0, Vec.zero, Vec.zero, Vec.zero, 0, 0, Quat.zero⟩

/-- The strength of the acceleration. -/
def load {α : Type} [Elementary α] (s : Sample α) : α := s.accel.norm

/-- The height above sea level, in metres, that the air pressure tells in the standard
atmosphere. -/
def altitude (s : Sample Float) : Float :=
  145366.45 * (1 - Float.pow (s.pressure / 1013.25) 0.190284) * 0.3048

end Sample

/-! ## Fields -/

/-- A measured quantity of a sample. -/
inductive Field where
  | accel
  | gyro
  | mag
  | quat
  | temperature
  | pressure
  deriving Repr, DecidableEq

/-- The numbers that a sample has for a field. -/
def Field.components {α : Type} : Field → Sample α → List α
  | .accel, s => s.accel.toList
  | .gyro, s => s.gyro.toList
  | .mag, s => s.mag.toList
  | .quat, s => s.quat.toList
  | .temperature, s => [s.temperature]
  | .pressure, s => [s.pressure]

end RideHud
