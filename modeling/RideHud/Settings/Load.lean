import RideHud.Settings.Check
import RideHud.Settings.Read
import RideHud.Text.Path

/-!
# Loading settings

Settings are read, repaired and checked. The extension of a file tells its format, and is looked
at before the file is.
-/

namespace RideHud.Settings

/-- Why there are no settings. -/
inductive LoadError where
  /-- The text is not settings in the format. -/
  | unreadable (format : Format)
  /-- The file name has no extension. -/
  | noExtension
  /-- The extension stands for no format. -/
  | unsupported (extension : String)
  /-- The file cannot be read. -/
  | io (text : String)
  /-- The settings make no sense. -/
  | invalid (p : Problem)
  deriving Repr

/-- What an error says to the user. -/
def LoadError.message : LoadError → String
  | .unreadable .toml => "config parse error: TOML parse error"
  | .unreadable .json => "config parse error: JSON parse error"
  | .noExtension => "config parse error: cannot determine file format from extension"
  | .unsupported extension => s!"config parse error: unsupported config format: .{extension}"
  | .io text => s!"io error: {text}"
  | .invalid p => p.message

/-- The settings that a text holds. -/
def load (format : Format) (text : String) : Except LoadError Settings :=
  match ofText? format text with
  | none => .error (.unreadable format)
  | some s =>
    match s.repaired.problem? with
    | some p => .error (.invalid p)
    | none => .ok s.repaired

/-- What is said about bytes that are no text. -/
def notText : String := "stream did not contain valid UTF-8"

/-- The settings in a file whose content, or the reason why it has none, is given. -/
def loadFile (path : String) (content : Except String ByteArray) : Except LoadError Settings :=
  match Path.extension? path with
  | none => .error .noExtension
  | some extension =>
    match Format.ofExtension? extension with
    | none => .error (.unsupported extension)
    | some format =>
      match content with
      | .error text => .error (.io text)
      | .ok bytes =>
        match String.fromUTF8? bytes with
        | none => .error (.io notText)
        | some text => load format text

end RideHud.Settings
