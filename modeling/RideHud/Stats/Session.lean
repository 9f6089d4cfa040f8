import RideHud.Sample
import RideHud.Stats.Running

/-!
# Session statistics

What happened to the frames and samples of one run of the program.
-/

namespace RideHud

open scoped Scalar

/-- What became of a frame. -/
inductive FrameOutcome where
  /-- It was drawn. -/
  | rendered
  /-- There was nothing to draw. -/
  | empty
  /-- Drawing failed. -/
  | failed
  deriving Repr, DecidableEq

/-- The statistics of a session. -/
structure Session (α : Type) where
  frames : Nat
  emptyFrames : Nat
  failedFrames : Nat
  samples : Nat
  /-- Samples older than the one before them. -/
  backward : Nat
  /-- How long frames took, in milliseconds. -/
  renderMillis : Running α
  /-- The time between a sample and the next one, if that is not older, in microseconds. -/
  intervals : Running α
  /-- The strength of the acceleration. -/
  loads : Running α
  /-- The time of the last sample. -/
  lastTime : Option Micros
  deriving Repr, DecidableEq

namespace Session

section

variable {α : Type} [Scalar α]

/-- A session in which nothing has happened. -/
def empty : Session α := ⟨0, 0, 0, 0, 0, .empty, .empty, .empty, none⟩

/-- One more frame, and how long it took. -/
def addFrame (s : Session α) (outcome : FrameOutcome) (millis : α) : Session α :=
  { s with
    frames := s.frames + 1
    emptyFrames := s.emptyFrames + if outcome = .empty then 1 else 0
    failedFrames := s.failedFrames + if outcome = .failed then 1 else 0
    renderMillis := s.renderMillis.push millis }

/-- The share of failed frames, in percent; zero without frames. -/
def failureRate (s : Session α) : α :=
  if 0 < s.frames then Nat.cast s.failedFrames / Nat.cast s.frames * 100 else 0

end

/-- One more sample. -/
def addSample {α : Type} [Elementary α] (s : Session α) (sample : Sample α) : Session α :=
  let isBackward := s.lastTime.any fun last => sample.time < last
  { s with
    samples := s.samples + 1
    backward := s.backward + if isBackward then 1 else 0
    intervals := match s.lastTime with
      | some last =>
        if isBackward then s.intervals else s.intervals.push (sample.time - last).toScalar
      | none => s.intervals
    loads := s.loads.push sample.load
    lastTime := some sample.time }

/-- The session in a few lines of text. -/
def text (s : Session Float) : String :=
  let backward :=
    if 0 < s.backward then s!"Samples going backwards: {s.backward}\n" else ""
  let rate := Decimal.fixed 2 s.failureRate
  "=== Session Summary ===\n" ++
    s!"Samples: {s.samples}\n" ++ backward ++
    s!"Sample interval (us): {s.intervals.text}\n" ++
    s!"Acceleration (G): {s.loads.text}\n" ++
    s!"Frames: {s.frames} ({s.emptyFrames} empty)\n" ++
    s!"Failed frames: {s.failedFrames} ({rate}%)\n" ++
    s!"Render time (ms): {s.renderMillis.text}\n"

end Session

end RideHud
