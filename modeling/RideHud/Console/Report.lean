import RideHud.Hud.Frames
import RideHud.Hud.View
import RideHud.Intake
import RideHud.Series
import RideHud.Series.Outliers
import RideHud.Settings.Load
import RideHud.Text.Json
import RideHud.Wire.Load

/-!
# Reports

What a command writes to its output, and why it failed if it did. A failure is told as a chain of
messages, from what was tried to what went wrong. One failure is not foreseen: where a difference of
times runs below zero, the program breaks off.
-/

namespace RideHud.Console

/-! ## Failures -/

/-- What a file is for. -/
inductive FileUse where
  | configuration
  | data
  deriving Repr, DecidableEq

/-- The name of a use. -/
def FileUse.name : FileUse → String
  | .configuration => "Configuration"
  | .data => "Data"

/-- Why a command fails. -/
inductive Failure where
  /-- A file is not there. -/
  | noFile (use : FileUse) (path : String)
  /-- A recording is empty, or nothing of it was kept. -/
  | noSamples (path : String)
  /-- An argument makes no sense. -/
  | badArgument (detail : String)
  /-- Some frames were not written. -/
  | lostFrames (failed total : Nat)
  /-- The settings cannot be used. -/
  | settings (path : String) (e : Settings.LoadError)
  /-- The settings that were checked cannot be used. -/
  | invalidSettings
  /-- A recording cannot be decoded. -/
  | recording (path : String) (e : Wire.StreamError)
  /-- A recording runs back in time. -/
  | intake (path : String) (e : Intake.Backwards)
  /-- There is no HUD. -/
  | setup (e : HudError)
  /-- There is no sample for a time. -/
  | noSampleAt (time : Micros) (e : HudError)
  /-- A frame cannot be drawn. -/
  | hud (e : HudError)
  /-- There is no canvas. -/
  | canvas (e : CanvasError)
  /-- A picture cannot be written. -/
  | picture (reason : String)
  /-- A file or folder cannot be made. -/
  | create (path reason : String)
  /-- The folder for the frames of a stream cannot be made. -/
  | frameFolder (reason : String)
  /-- The stream of samples is broken. -/
  | stream (e : Wire.StreamError)
  /-- A field is no series. -/
  | series (e : Series.Error)
  /-- There is no room for an analysis. -/
  | shortage (e : Workspace.Shortage)
  /-- Outliers cannot be judged. -/
  | outliers (e : Series.OutlierRule.Error)
  /-- A time comes before the one that it is measured from. -/
  | overflow

/-- The messages of an error of a stream. -/
def streamChain : Wire.StreamError → List String
  | .io text => [(Wire.StreamError.io text).message, text]
  | e => [e.message]

/-- The messages of an error of settings. -/
def settingsChain : Settings.LoadError → List String
  | .io text => [(Settings.LoadError.io text).message, text]
  | e => [e.message]

/-- The messages of a failure. -/
def Failure.chain : Failure → List String
  | .noFile use path => [s!"{use.name} file not found: {path}"]
  | .noSamples path => [s!"No samples in {path}"]
  | .badArgument detail => [s!"Invalid argument: {detail}"]
  | .lostFrames failed total => [s!"{failed} of {total} frames failed to render"]
  | .settings path e => s!"Failed to load config from {path}" :: settingsChain e
  | .invalidSettings => ["Configuration validation failed"]
  | .recording path e => s!"Failed to decode {path}" :: streamChain e
  | .intake path e => [s!"Failed to preprocess {path}", e.message]
  | .setup e => "Failed to set up HUD" :: e.chain
  | .noSampleAt time e => s!"No sample for {time}us" :: e.chain
  | .hud e => e.chain
  | .canvas e => [e.message]
  | .picture reason => [Picture.saveMessage reason, reason]
  | .create path reason => [s!"Failed to create {path}", reason]
  | .frameFolder reason => ["Failed to create frame directory", reason]
  | .stream e => streamChain e
  | .series e => [e.message]
  | .shortage e => [e.message]
  | .outliers e => [e.message]
  | .overflow => ["attempt to subtract with overflow"]

/-- Whether the program breaks off, instead of telling what went wrong. -/
def Failure.breaksOff : Failure → Bool
  | .overflow => true
  | _ => false

/-- The time between two times, unless the program breaks off. -/
def duration (start stop : Micros) : Except Failure Micros :=
  match stop.since? start with
  | some span => .ok span
  | none => .error .overflow

/-! ## Output -/

/-- What a command writes. -/
inductive Output where
  | lines (ls : List String)
  | json (v : Json)

/-- The lines that are written. -/
def Output.toLines : Output → List String
  | .lines ls => ls
  | .json v => v.pretty.splitOn "\n"

/-- What came of a command. -/
structure Report where
  output : Output := .lines []
  failure : Option Failure := none

/-- The report of a result: nothing is written by a command that fails. -/
def Report.ofResult : Except Failure Output → Report
  | .ok output => { output := output }
  | .error e => { failure := some e }

end RideHud.Console
