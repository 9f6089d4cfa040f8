import RideHud.Console.Report

/-!
# Files that commands read

Settings are loaded before recordings, so of two files that are missing the settings are named. The
span of a recording is measured as soon as its samples are there, which breaks the program off if
the last one comes before the first one.
-/

namespace RideHud.Console

variable {m : Type → Type} [Monad m] [Storage m]

/-- The settings in a file that was looked for. -/
def settingsFound (path : String) : Found → Except Failure Settings
  | .nothing => .error (.noFile .configuration path)
  | .unreadable reason => (Settings.loadFile path (.error reason)).mapError (.settings path)
  | .file content => (Settings.loadFile path (.ok content)).mapError (.settings path)

/-- The bytes of a file that was looked for. -/
def sourceFound (path : String) : Found → Except Failure Wire.Source
  | .nothing => .error (.noFile .data path)
  | .unreadable reason => .ok [.failed reason]
  | .file content => .ok [.data content.toList]

/-- Take samples in under settings, if there are any. -/
def takenIn (path : String) (settings : Option Settings) (samples : List (Sample Float)) :
    Except Failure (List (Sample Float)) :=
  match settings with
  | none => .ok samples
  | some s => (Intake.processAll { rule := .ofSettings s } samples).mapError (.intake path)

/-- The time from the first sample to the last one. -/
def spanOf (samples : List (Sample Float)) : Except Failure Micros :=
  match samples.head?, samples.getLast? with
  | some first, some last => duration first.time last.time
  | _, _ => .ok 0

/-- The samples in a file that was looked for, taken in under settings if there are any. -/
def samplesFound (path : String) (settings : Option Settings) (found : Found) :
    Except Failure (List (Sample Float)) := do
  let source ← sourceFound path found
  let raw ← (Wire.load .patient source).result.mapError (.recording path)
  let samples ← takenIn path settings (raw.map RawSample.measured)
  let _ ← spanOf samples
  return samples

/-- The samples in a file that was looked for, of which there is one at least. -/
def someSamplesFound (path : String) (settings : Option Settings) (found : Found) :
    Except Failure (List (Sample Float)) := do
  let samples ← samplesFound path settings found
  if samples.isEmpty then .error (.noSamples path) else .ok samples

/-- The settings in a file. -/
def loadSettings (path : String) : m (Except Failure Settings) := do
  return settingsFound path (← Storage.find path)

/-- The samples in a file. -/
def loadSamples (path : String) (settings : Option Settings) :
    m (Except Failure (List (Sample Float))) := do
  return someSamplesFound path settings (← Storage.find path)

end RideHud.Console
