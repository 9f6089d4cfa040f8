import RideHud.Console.Findings
import RideHud.Console.Live
import RideHud.Console.Summary
import RideHud.Console.Verdict
import RideHud.Pendulum

/-!
# The program

Each command runs in a host and ends in a report.
-/

namespace RideHud.Console

variable {m : Type → Type} [Monad m]

/-- What is wrong with a recording that is to be made up. -/
def SynthRequest.mistake? (r : SynthRequest) : Option String :=
  ([("--seconds", r.seconds), ("--rate", r.rate), ("--period", r.period)].find? fun (_, x) =>
    !(x.isFinite && 0 < x)).map fun (name, x) =>
      name ++ " must be positive, got " ++ Decimal.plain "" x

/-- The swing ride of a request. -/
def SynthRequest.pendulum (r : SynthRequest) : Pendulum :=
  { rate := r.rate, seconds := r.seconds, period := r.period, amplitude := r.amplitude }

/-- The bytes of a recording. -/
def recordingBytes (samples : List (Sample Float)) : ByteArray :=
  ⟨(samples.flatMap fun s => Wire.encode s.raw s.time).toArray⟩

/-- Make up a recording. -/
def synthesize [Storage m] (r : SynthRequest) : m Report := do
  match r.mistake? with
  | some detail => return { failure := some (.badArgument detail) }
  | none =>
    let made ← Storage.write r.out (Thunk.mk fun _ => recordingBytes r.pendulum.samples)
    return .ofResult ((made.map fun _ =>
      .lines [s!"Wrote {r.pendulum.length} samples to {r.out}"]).mapError (.create r.out))

/-- Run a command. -/
def Command.run [Host m] : Command → m Report
  | .info data config json => summarize data config json
  | .validate config json => Console.validate config json
  | .render r => Console.render r
  | .analyze r => Console.analyze r
  | .live r => Console.live r
  | .synth r => synthesize r

end RideHud.Console
