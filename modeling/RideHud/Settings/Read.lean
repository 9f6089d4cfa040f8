import RideHud.Settings
import RideHud.Text.Toml

/-!
# Reading settings

Settings are a table of sections. A section may be a table, in which unknown keys are ignored, or a
list of its fields in order. What is not given has its usual value, except that the components of a
mount that is given are zero.
-/

namespace RideHud.Settings

/-- The formats of settings. -/
inductive Format where
  | toml
  | json
  deriving Repr, DecidableEq

namespace Format

/-- The format that the extension of a file name stands for. -/
def ofExtension? (extension : String) : Option Format :=
  match extension.toLower with
  | "toml" => some .toml
  | "json" => some .json
  | _ => none

/-- The document that a text holds in a format. -/
def document? : Format → String → Option Document
  | .toml, s => Toml.ofText? s
  | .json, s => (Json.ofText? s).map Document.ofJson

/-- Whether a value is what the name of a choice leads to when the choice is written as a table. -/
def isUnit : Format → Document → Bool
  | .json, .null => true
  | .toml, .table [] => true
  | .toml, .list [] => true
  | _, _ => false

/-- Whether a list has to end with the last field. -/
def isClosed : Format → Bool
  | .json => true
  | .toml => false

end Format

/-! ## Values -/

/-- The value of a field, or its usual value. -/
def field {β : Type} (read : Document → Option β) (usual : β) : Option Document → Option β
  | none => some usual
  | some v => read v

/-- A whole number of 64 bits. -/
def word? : Document → Option UInt64
  | .whole n => if 0 ≤ n ∧ n < UInt64.size then some n.toNat.toUInt64 else none
  | _ => none

/-- A number. -/
def number? : Document → Option Float
  | .whole n => some (Float.ofInt n)
  | .number x => some x
  | _ => none

/-- A choice, by its name. -/
def choice? {β : Type} (format : Format) (choices : List (String × β)) : Document → Option β
  | .text name => choices.lookup name
  | .table [(name, v)] => if format.isUnit v then choices.lookup name else none
  | _ => none

/-- The fields of a section by name. -/
def fields? (format : Format) (names : List String) : Document → Option (String → Option Document)
  | .table entries =>
    if names.all fun n => (entries.filter (·.1 == n)).length ≤ 1 then some fun name => entries.lookup name
    else none
  | .list items =>
    if format.isClosed && names.length < items.length then none
    else some fun name => items[names.idxOf name]?
  | _ => none

/-! ## Sections -/

/-- The section `video`. -/
def video? (format : Format) (v : Document) : Option Video := do
  let f ← fields? format ["startoff", "endoff"] v
  return { start := ← field word? 0 (f "startoff"), stop := ← field word? 0 (f "endoff") }

/-- The orientation of the sensor. -/
def mount? (format : Format) (v : Document) : Option (Quat Float) := do
  let f ← fields? format ["w", "x", "y", "z"] v
  return ⟨← field number? 0 (f "w"), ← field number? 0 (f "x"), ← field number? 0 (f "y"),
    ← field number? 0 (f "z")⟩

/-- The section `data`. -/
def data? (format : Format) (v : Document) : Option Data := do
  let f ← fields? format ["startoff", "imu_orientation", "pressure_coeff"] v
  return { start := ← field word? 0 (f "startoff")
           mount := ← field (mount? format) Quat.one (f "imu_orientation")
           smoothing := ← field number? 0 (f "pressure_coeff") }

/-- The modes by name. -/
def modes : List (String × Mode) := [.normal, .booster, .swingboat].map fun m => (m.name, m)

/-- The positions by name. -/
def positions : List (String × Position) := [.back, .middle, .front].map fun p => (p.name, p)

/-- The section `hud`. -/
def hud? (format : Format) (v : Document) : Option Hud := do
  let f ← fields? format ["mode", "altitude_ground"] v
  return { mode := ← field (choice? format modes) .normal (f "mode")
           ground := ← field number? 0 (f "altitude_ground") }

/-- The section `booster`. -/
def booster? (format : Format) (v : Document) : Option Booster := do
  let f ← fields? format ["radius"] v
  return { radius := ← field number? 0 (f "radius") }

/-- The section `swingboat`. -/
def swingboat? (format : Format) (v : Document) : Option Swingboat := do
  let f ← fields? format ["position"] v
  return { position := ← field (choice? format positions) .back (f "position") }

/-- The section `orientation`. -/
def orientation? (format : Format) (v : Document) : Option Orientation := do
  let f ← fields? format ["mode"] v
  let modes := [(OrientationMode.normal.name, OrientationMode.normal)]
  return { mode := ← field (choice? format modes) .normal (f "mode") }

/-- The section `display`. -/
def display? (format : Format) (v : Document) : Option Display := do
  let f ← fields? format ["dpi", "spi"] v
  let usual : Display := {}
  return { dpi := ← field number? usual.dpi (f "dpi"), spi := ← field number? usual.spi (f "spi") }

/-- The section `graph`. -/
def graph? (format : Format) (v : Document) : Option Graph := do
  let f ← fields? format ["window_us", "max_g", "redline_g"] v
  let usual : Graph := {}
  return { window := ← field word? usual.window (f "window_us")
           maxLoad := ← field number? usual.maxLoad (f "max_g")
           redline := ← field number? usual.redline (f "redline_g") }

/-- The names of the sections, in order. -/
def sections : List String :=
  ["video", "data", "hud", "booster", "swingboat", "orientation", "display", "graph"]

/-- The settings in a document, as they are written. -/
def ofDocument? (format : Format) (v : Document) : Option Settings := do
  let f ← fields? format sections v
  return { video := ← field (video? format) {} (f "video")
           data := ← field (data? format) {} (f "data")
           hud := ← field (hud? format) {} (f "hud")
           booster := ← field (booster? format) {} (f "booster")
           swingboat := ← field (swingboat? format) {} (f "swingboat")
           orientation := ← field (orientation? format) {} (f "orientation")
           display := ← field (display? format) {} (f "display")
           graph := ← field (graph? format) {} (f "graph") }

/-- The settings that a text holds, as they are written. -/
def ofText? (format : Format) (s : String) : Option Settings :=
  (format.document? s).bind (ofDocument? format)

end RideHud.Settings
