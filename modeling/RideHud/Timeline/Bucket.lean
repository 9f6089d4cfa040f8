import RideHud.Sample
import RideHud.Workspace

/-!
# Buckets of equal duration

A recording is averaged over spans of equal duration from time zero on, as far as whole spans
reach. Orientations do not average to a rotation, so a bucket has the orientation of the sample
nearest to its middle. A bucket without samples repeats the one before it, with a count of zero.
-/

namespace RideHud

open scoped Scalar

/-- The average of the samples in a span of time. -/
structure Bucket (α : Type) where
  /-- The middle of the span. -/
  time : Micros
  accel : Vec α
  gyro : Vec α
  mag : Vec α
  temperature : α
  pressure : α
  /-- The orientation nearest to the middle. -/
  quat : Quat α
  /-- The number of samples. -/
  count : Nat
  deriving Repr, DecidableEq

namespace Bucket

instance {α : Type} : Stamped (Bucket α) := ⟨Bucket.time⟩

/-- The size of a bucket: its time, its count and fifteen numbers, of eight bytes each. -/
def bytes : Nat := 8 * 17

/-- The strength of the average acceleration. -/
def load {α : Type} [Elementary α] (b : Bucket α) : α := b.accel.norm

variable {α : Type} [Scalar α]

/-- A span before the first sample. -/
def vacant (time : Micros) : Bucket α :=
  ⟨time, Vec.zero, Vec.zero, Vec.zero, 0, 0, Quat.zero, 0⟩

/-- The average of vectors, added up from the left. -/
def average (vs : List (Vec α)) : Vec α :=
  (vs.foldl Vec.add Vec.zero).divide (Nat.cast vs.length)

/-- The nearer of two samples to a time; the first one if there is no difference. -/
def nearer (time : Micros) (a b : Sample α) : Sample α :=
  if b.time.distance time < a.time.distance time then b else a

/-- The orientation of the sample nearest to a time, the first of several. -/
def nearestQuat (time : Micros) : List (Sample α) → Quat α
  | [] => Quat.zero
  | s :: ss => (ss.foldl (nearer time) s).quat

/-- The bucket of some samples. -/
def ofSamples (time : Micros) (samples : List (Sample α)) : Bucket α :=
  let n : α := Nat.cast samples.length
  { time
    accel := average (samples.map (·.accel))
    gyro := average (samples.map (·.gyro))
    mag := average (samples.map (·.mag))
    temperature := Scalar.total (samples.map (·.temperature)) / n
    pressure := Scalar.total (samples.map (·.pressure)) / n
    quat := nearestQuat time samples
    count := samples.length }

/-- The bucket for a span whose samples are given, after another bucket. -/
def following (previous : Option (Bucket α)) (time : Micros) (samples : List (Sample α)) :
    Bucket α :=
  if samples.isEmpty then
    match previous with
    | some b => { b with time := time, count := 0 }
    | none => vacant time
  else ofSamples time samples

end Bucket

namespace Timeline

/-! ## Cutting a recording into buckets -/

/-- Why a recording has no buckets. -/
inductive BucketError where
  /-- Buckets need a duration. -/
  | noDuration
  /-- There are no samples. -/
  | noSamples
  /-- There would be too many buckets. -/
  | shortage (s : Workspace.Shortage)
  deriving Repr, DecidableEq

/-- What an error says to the user. -/
def BucketError.message : BucketError → String
  | .noDuration => "invalid argument 'bucket_us': bucket duration must be > 0"
  | .noSamples => "invalid argument 'samples': cannot downscale an empty series"
  | .shortage s => s.message

/-- Halve the `size` elements from `base` on until one is left: the place where a condition that
holds of a first part of them ends. -/
def bisect {β : Type} (p : β → Bool) (items : Array β) (base size : Nat) : Nat :=
  if 1 < size then
    let half := size / 2
    bisect p items (if items[base + half]?.any p then base + half else base) (size - half)
  else if size = 0 then base
  else if items[base]?.any p then base + 1 else base
termination_by size

variable {α : Type} [Scalar α]

/-- The buckets that are made, and the samples that they have left. -/
structure Cut (α : Type) where
  /-- The place of the first sample that is left. -/
  first : Nat := 0
  buckets : Array (Bucket α) := #[]

/-- Make the next bucket of a given duration. -/
def Cut.next (samples : Array (Sample α)) (duration : Micros) (cut : Cut α) : Cut α :=
  let start := UInt64.ofNat cut.buckets.size * duration
  let stop := start + duration
  let split := bisect (fun s => s.time < stop) samples cut.first (samples.size - cut.first)
  let inside := (samples.extract cut.first split).toList.filter fun s => !(s.time < start)
  let middle := start + duration / 2
  { first := split
    buckets := cut.buckets.push (Bucket.following cut.buckets.back? middle inside) }

/-- The buckets of a recording, as many as end before the time of its last sample. -/
def buckets (samples : List (Sample α)) (duration : Micros) :
    Except BucketError (List (Bucket α)) :=
  if duration = 0 then .error .noDuration
  else
    match samples.getLast? with
    | none => .error .noSamples
    | some last =>
      let count := (last.time / duration).toNat
      match Workspace.reserve count Bucket.bytes with
      | .error e => .error (.shortage e)
      | .ok () =>
        let samples := samples.toArray
        .ok (Nat.repeat (Cut.next samples duration) count {}).buckets.toList

end Timeline

end RideHud
