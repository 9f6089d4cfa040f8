import RideHud.Console.Grammar
import RideHud.Sample

/-!
# Commands

What the program can be asked to do, and how it is asked on a command line: with a command, its own
options and operand, and options about logging that may stand before the command or after it.
-/

namespace RideHud.Console

/-! ## Commands -/

/-- How a series is analysed. -/
inductive Method where
  | ampd
  | lls
  | threshold
  | momentum
  deriving Repr, DecidableEq

/-- The name of a method. -/
def Method.name : Method → String
  | .ampd => "ampd"
  | .lls => "lls"
  | .threshold => "threshold"
  | .momentum => "momentum"

/-- What to render. -/
structure RenderRequest where
  data : String
  config : String
  /-- The time of the first frame. -/
  start : Micros
  width : Nat
  height : Nat
  /-- The picture, if there is one frame. -/
  out : String
  frames : Nat
  /-- The time from a frame to the next one. -/
  step : Micros
  /-- The folder for more than one frame. -/
  folder : String
  deriving Repr, DecidableEq

/-- What to analyse. -/
structure AnalysisRequest where
  data : String
  field : Field
  method : Method
  troughs : Bool
  lag : Nat
  threshold : Float
  influence : Float
  friction : Float
  minMomentum : Float
  json : Bool
  deriving Repr, DecidableEq

/-- How to show a stream. -/
structure LiveRequest where
  config : String
  width : Nat
  height : Nat
  /-- The folder for the frames, if they are kept. -/
  folder : Option String
  deriving Repr, DecidableEq

/-- What recording to make up. -/
structure SynthRequest where
  out : String
  seconds : Float
  rate : Float
  period : Float
  amplitude : Float
  deriving Repr, DecidableEq

/-- What the program is asked to do. -/
inductive Command where
  /-- Sum up a recording. -/
  | info (data : String) (config : Option String) (json : Bool)
  /-- Check settings. -/
  | validate (config : String) (json : Bool)
  /-- Draw frames of a recording. -/
  | render (r : RenderRequest)
  /-- Analyse a field of a recording. -/
  | analyze (r : AnalysisRequest)
  /-- Draw the samples of a stream. -/
  | live (r : LiveRequest)
  /-- Make up a recording. -/
  | synth (r : SynthRequest)
  deriving Repr, DecidableEq

/-- How the log is written. -/
inductive LogFormat where
  | pretty
  | json
  | compact
  deriving Repr, DecidableEq

/-- A command and how it is logged. -/
structure Invocation where
  verbose : Nat
  quiet : Bool
  logFormat : LogFormat
  metricsPort : Nat
  command : Command
  deriving Repr, DecidableEq

/-! ## Grammars -/

/-- Options about logging, and the wish for help. -/
def commonOptions : List Parameter :=
  [⟨"verbose", .count, some 'v', "Increase logging verbosity (-v for debug, -vv for trace)"⟩,
    ⟨"quiet", .nothing, some 'q', "Suppress all output except warnings and errors"⟩,
    ⟨"log-format", .choice ["json", "pretty", "compact"], none, "Log output format"⟩,
    ⟨"metrics-port", .short UInt16.size, none, "Prometheus metrics port (0 = disabled)"⟩,
    ⟨"help", .help, some 'h', "Print help"⟩]

/-- Options that exclude each other. -/
def exclusiveOptions : List (String × String) := [("quiet", "verbose")]

/-- What can be given before the command. -/
def topGrammar : Grammar where
  options := commonOptions ++ [⟨"version", .version, some 'V', "Print version"⟩]
  exclusive := exclusiveOptions
  about := "Sensor telemetry HUD renderer"

/-- The file with settings. -/
def configOption (help : String) : Parameter := ⟨"config", .path, some 'c', help⟩

/-- The settings that frames are drawn under. -/
def frameSettings : Parameter := configOption "Configuration file (TOML or JSON)"

/-- The wish for JSON. -/
def jsonOption (help : String) : Parameter := ⟨"json", .nothing, none, help⟩

/-- The size of frames. -/
def sizeOptions : List Parameter :=
  [⟨"width", .short UInt32.size, none, "Frame width (px)"⟩,
    ⟨"height", .short UInt32.size, none, "Frame height (px)"⟩]

/-- The recording that is read. -/
def dataOperand : Parameter := ⟨"data", .path, none, "Sample recording"⟩

/-- The options and the operand of a command, and what is said about it. -/
def commandGrammar (about : String) (options : List Parameter) (operand : Option Parameter) :
    Grammar where
  options := commonOptions ++ options
  operand := operand
  exclusive := exclusiveOptions
  about := about

/-- What can be given after each command. -/
def commandGrammars : List (String × Grammar) :=
  [("info", commandGrammar "Summarise a sample recording"
      [configOption "Configuration file; enables preprocessing and ground-relative altitude",
        jsonOption "Output as JSON"] dataOperand),
    ("validate", commandGrammar "Validate configuration file"
      [configOption "Path to configuration file to validate",
        jsonOption "Output validation result as JSON"] none),
    ("render", commandGrammar "Render HUD frames from a recording"
      ([frameSettings, ⟨"at", .natural UInt64.size, none,
          "Video-clock time of the first frame (µs)"⟩] ++
        sizeOptions ++
        [⟨"out", .path, some 'o', "Output PNG for a single frame"⟩,
          ⟨"frames", .natural UInt64.size, none,
            "Number of frames; more than one writes a numbered sequence to `--out-dir`"⟩,
          ⟨"step", .natural UInt64.size, none, "Time between sequence frames (µs)"⟩,
          ⟨"out-dir", .path, none, "Directory for frame sequences"⟩]) dataOperand),
    ("analyze", commandGrammar "Run signal analysis over one field of a recording"
      [⟨"field", .choice ["accel", "gyro", "mag", "pressure", "temperature"], none,
          "Field to analyse"⟩,
        ⟨"method", .choice ["ampd", "lls", "threshold", "momentum"], none, "Analysis method"⟩,
        ⟨"troughs", .nothing, none, "Look for troughs instead of peaks (ampd)"⟩,
        ⟨"lag", .natural UInt64.size, none, "Moving window length (threshold)"⟩,
        ⟨"threshold", .number, none, "Z-score needed to flag a sample (threshold)"⟩,
        ⟨"influence", .number, none, "Weight of flagged samples in the moving window (threshold)"⟩,
        ⟨"friction", .number, none, "Momentum decay per unit time (momentum)"⟩,
        ⟨"min-momentum", .number, none, "Momentum needed before the first landmark (momentum)"⟩,
        jsonOption "Output as JSON"] dataOperand),
    ("live", commandGrammar "Render samples streamed on stdin"
      (frameSettings :: sizeOptions ++
        [⟨"out-dir", .path, none, "Write every rendered frame to this directory"⟩]) none),
    ("synth", commandGrammar "Write a synthetic swing-ride recording"
      [⟨"seconds", .number, none, "Recording length (s)"⟩,
        ⟨"rate", .number, none, "Sample rate (Hz)"⟩,
        ⟨"period", .number, none, "Swing period (s)"⟩,
        ⟨"amplitude", .number, none, "Peak swing angle (degrees)"⟩]
      (some ⟨"out", .path, none, "Output recording"⟩))]

/-! ## Values -/

namespace Given

/-- Whether a name was given. -/
def has (g : Given) (name : String) : Bool := 0 < g.count name

/-- The value of a name, or what is usual. -/
def text (g : Given) (name usual : String) : String := (g.value? name).getD usual

/-- The natural number of a name, or what is usual. -/
def natural (g : Given) (name : String) (usual : Nat) : Nat :=
  ((g.value? name).bind Text.naturalOrMinusZero?).getD usual

/-- The number of a name, or what is usual. -/
def number (g : Given) (name : String) (usual : Float) : Float :=
  ((g.value? name).bind Text.number?).getD usual

/-- The settings file. -/
def config (g : Given) : String := g.text "config" "sensorhud.toml"

end Given

/-- The command of a name with what was given. -/
def Command.ofGiven (name : String) (g : Given) : Command :=
  let width := g.natural "width" 1920
  let height := g.natural "height" 1080
  match name with
  | "info" => .info (g.text "data" "") (g.value? "config") (g.has "json")
  | "validate" => .validate g.config (g.has "json")
  | "render" => .render
    { data := g.text "data" ""
      config := g.config
      start := (g.natural "at" 0).toUInt64
      width := width
      height := height
      out := g.text "out" "hud.png"
      frames := g.natural "frames" 1
      step := (g.natural "step" 33333).toUInt64
      folder := g.text "out-dir" "frames" }
  | "analyze" => .analyze
    { data := g.text "data" ""
      field := match g.text "field" "accel" with
        | "gyro" => .gyro
        | "mag" => .mag
        | "pressure" => .pressure
        | "temperature" => .temperature
        | _ => .accel
      method := match g.text "method" "ampd" with
        | "lls" => .lls
        | "threshold" => .threshold
        | "momentum" => .momentum
        | _ => .ampd
      troughs := g.has "troughs"
      lag := g.natural "lag" 30
      threshold := g.number "threshold" 5
      influence := g.number "influence" 0
      friction := g.number "friction" 0.1
      minMomentum := g.number "min-momentum" 0
      json := g.has "json" }
  | "live" => .live ⟨g.config, width, height, g.value? "out-dir"⟩
  | _ => .synth
    ⟨g.text "out" "", g.number "seconds" 10, g.number "rate" 100, g.number "period" 10,
      g.number "amplitude" 60⟩

/-! ## Command lines -/

/-- What stands before the command, the name of the command and what follows it. -/
def splitCommand (g : Given) :
    List String → Except UsageError (Given × Option (String × List String))
  | [] => .ok (g, none)
  | argument :: rest =>
    let isName := argument == "help" || commandGrammars.any (·.1 == argument)
    if g.onlyOperands then .error (if isName then .unknownArgument else .unknownCommand)
    else if isName && !g.awaitsValue then .ok (g, some (argument, rest))
    else if !argument.startsWith "-" || argument == "-" then
      if g.awaitsValue then do splitCommand (← g.read topGrammar argument) rest
      else .error .unknownCommand
    else do splitCommand (← g.read topGrammar argument) rest

/-- What is said about the command that help is asked for. -/
def helpFor : List String → UsageError
  | [] => .help
  | [name] => if name == "help" || commandGrammars.any (·.1 == name) then .help else .unknownCommand
  | _ => .unknownCommand

/-- The options about logging, of which those after the command win. -/
def Invocation.ofGiven (before after : Given) (command : Command) : Invocation :=
  let pick (name : String) : Given := if after.has name then after else before
  { verbose := min 255 ((pick "verbose").count "verbose")
    quiet := (pick "quiet").has "quiet"
    logFormat := match (pick "log-format").text "log-format" "pretty" with
      | "json" => .json
      | "compact" => .compact
      | _ => .pretty
    metricsPort := (pick "metrics-port").natural "metrics-port" 0
    command := command }

/-- Read a command line. What follows the command is read before the last option in front of it. -/
def Invocation.ofArguments (arguments : List String) : Except UsageError Invocation := do
  match ← splitCommand {} arguments with
  | (before, none) =>
    let before ← before.settle
    .error (if before.values.isEmpty then .nothingGiven else .noCommand)
  | (before, some (name, rest)) =>
    match commandGrammars.lookup name with
    | none => .error (helpFor rest)
    | some grammar =>
      let after ← (← Given.readAll grammar {} rest).finish grammar
      let before ← before.finish topGrammar
      return .ofGiven before after (.ofGiven name after)

end RideHud.Console
