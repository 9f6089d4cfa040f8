import RideHud.Console.Command
import RideHud.Console.Files
import RideHud.Console.Film
import RideHud.Console.Findings
import RideHud.Console.Grammar
import RideHud.Console.Host
import RideHud.Console.Live
import RideHud.Console.Program
import RideHud.Console.Report
import RideHud.Console.Summary
import RideHud.Console.Usage
import RideHud.Console.Verbosity
import RideHud.Console.Verdict
import RideHud.Decimal
import RideHud.Draw.Arc
import RideHud.Draw.Canvas
import RideHud.Draw.Colour
import RideHud.Draw.Figure
import RideHud.Draw.Glyph
import RideHud.Draw.Png
import RideHud.Draw.Raster
import RideHud.Draw.Recording
import RideHud.Draw.Sketch
import RideHud.Draw.Transform
import RideHud.Geometry.Quat
import RideHud.Geometry.Triangle
import RideHud.Geometry.Vec
import RideHud.Hud.Context
import RideHud.Hud.Frames
import RideHud.Hud.LoadGraph
import RideHud.Hud.Strategy
import RideHud.Hud.Swingboat
import RideHud.Hud.Tilt
import RideHud.Hud.View
import RideHud.Intake
import RideHud.Main
import RideHud.Pendulum
import RideHud.Proofs.Binary64.Arithmetic
import RideHud.Proofs.Binary64.Decimal
import RideHud.Proofs.Binary64.Mantissa
import RideHud.Proofs.Binary64.Rounding
import RideHud.Proofs.Binary64.Value
import RideHud.Proofs.Console.Coverage
import RideHud.Proofs.Console.Live
import RideHud.Proofs.Console.Numbering
import RideHud.Proofs.Console.Record
import RideHud.Proofs.Console.Span
import RideHud.Proofs.Console.Take
import RideHud.Proofs.Draw.Arc
import RideHud.Proofs.Draw.Drawing
import RideHud.Proofs.Draw.Extents
import RideHud.Proofs.Draw.Flat
import RideHud.Proofs.Draw.Lettering
import RideHud.Proofs.Draw.Reached
import RideHud.Proofs.Draw.Reuse
import RideHud.Proofs.Draw.Saved
import RideHud.Proofs.Draw.Stroke
import RideHud.Proofs.Draw.Tidy
import RideHud.Proofs.Draw.Trail
import RideHud.Proofs.Exact
import RideHud.Proofs.Geometry.Between
import RideHud.Proofs.Geometry.Norm
import RideHud.Proofs.Geometry.Rotation
import RideHud.Proofs.Hud.Abort
import RideHud.Proofs.Hud.Anchor
import RideHud.Proofs.Hud.Cursor
import RideHud.Proofs.Hud.Frame
import RideHud.Proofs.Hud.FramePath
import RideHud.Proofs.Hud.Graph
import RideHud.Proofs.Hud.GraphFrame
import RideHud.Proofs.Hud.History
import RideHud.Proofs.Hud.Protocol
import RideHud.Proofs.Hud.Pushed
import RideHud.Proofs.Hud.Reel
import RideHud.Proofs.Hud.Safety
import RideHud.Proofs.Hud.Tilt
import RideHud.Proofs.Intake.Answers
import RideHud.Proofs.Intake.Batch
import RideHud.Proofs.Intake.Forward
import RideHud.Proofs.Intake.Mount
import RideHud.Proofs.Intake.Smoothing
import RideHud.Proofs.Intake.Window
import RideHud.Proofs.Series.Baseline
import RideHud.Proofs.Series.Filtered
import RideHud.Proofs.Series.HalfCycle
import RideHud.Proofs.Series.InPlace
import RideHud.Proofs.Series.Influence
import RideHud.Proofs.Series.Landmarks
import RideHud.Proofs.Series.Line
import RideHud.Proofs.Series.Mirror
import RideHud.Proofs.Series.Order
import RideHud.Proofs.Series.Scale
import RideHud.Proofs.Series.Units
import RideHud.Proofs.Settings.Check
import RideHud.Proofs.Settings.Loaded
import RideHud.Proofs.Settings.Reload
import RideHud.Proofs.Settings.Repair
import RideHud.Proofs.Settings.Rotation
import RideHud.Proofs.Settings.Written
import RideHud.Proofs.Settings.WrittenToml
import RideHud.Proofs.Stats.Running
import RideHud.Proofs.Stats.Session
import RideHud.Proofs.Stats.Squares
import RideHud.Proofs.Text.Infinity
import RideHud.Proofs.Text.Numeral
import RideHud.Proofs.Text.ReadBack
import RideHud.Proofs.Text.Shortest
import RideHud.Proofs.Text.Tame
import RideHud.Proofs.Text.WrittenJson
import RideHud.Proofs.Text.WrittenToml
import RideHud.Proofs.Timeline.Averages
import RideHud.Proofs.Timeline.Bucket
import RideHud.Proofs.Timeline.Conservation
import RideHud.Proofs.Timeline.Forward
import RideHud.Proofs.Timeline.Lookup
import RideHud.Proofs.Timeline.Order
import RideHud.Proofs.Timeline.Overflow
import RideHud.Proofs.Timeline.Search
import RideHud.Proofs.Timeline.Span
import RideHud.Proofs.Wire.Call
import RideHud.Proofs.Wire.Codec
import RideHud.Proofs.Wire.Load
import RideHud.Proofs.Wire.Run
import RideHud.Proofs.Wire.Short
import RideHud.Sample
import RideHud.Scalar
import RideHud.Series
import RideHud.Series.Extremum
import RideHud.Series.Landmarks
import RideHud.Series.Line
import RideHud.Series.Mark
import RideHud.Series.Mean
import RideHud.Series.Noise
import RideHud.Series.Outliers
import RideHud.Series.Peaks
import RideHud.Settings
import RideHud.Settings.Check
import RideHud.Settings.Load
import RideHud.Settings.Read
import RideHud.Settings.Write
import RideHud.Stats.Running
import RideHud.Stats.Session
import RideHud.Storage
import RideHud.Storage.Disk
import RideHud.Text.Document
import RideHud.Text.Json
import RideHud.Text.Number
import RideHud.Text.Path
import RideHud.Text.Toml
import RideHud.Timeline.Bucket
import RideHud.Timeline.Lookup
import RideHud.Wire.Decoder
import RideHud.Wire.Frame
import RideHud.Wire.Load
import RideHud.Wire.Source
import RideHud.Workspace
