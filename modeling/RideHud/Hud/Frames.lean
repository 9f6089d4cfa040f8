import RideHud.Decimal
import RideHud.Draw.Png
import RideHud.Storage

/-!
# Writing frames

Frames are written to one folder under numbers that count up. A frame that cannot be written takes no
number, so the numbers have no gaps.
-/

namespace RideHud

/-! ## Pictures -/

namespace Picture

/-- The formats of pictures by the extensions of their files. -/
def formats : List (String × String) :=
  [("png", "Png"), ("apng", "Png"), ("avif", "Avif"), ("jpg", "Jpeg"), ("jpeg", "Jpeg"),
    ("jfif", "Jpeg"), ("gif", "Gif"), ("webp", "WebP"), ("tif", "Tiff"), ("tiff", "Tiff"),
    ("tga", "Tga"), ("dds", "Dds"), ("bmp", "Bmp"), ("ico", "Ico"), ("hdr", "Hdr"),
    ("exr", "OpenExr"), ("pbm", "Pnm"), ("pam", "Pnm"), ("ppm", "Pnm"), ("pgm", "Pnm"),
    ("pnm", "Pnm"), ("ff", "Farbfeld"), ("qoi", "Qoi")]

/-- The format that a path tells, or why it tells none. -/
def formatOf (path : String) : Except String String :=
  match Path.extension? path with
  | none => .error "The image format could not be determined"
  | some extension =>
    match formats.lookup (extension.map Char.toLower) with
    | some format => .ok format
    | none => .error
      ("The file extension `.\"" ++ extension ++ "\"` was not recognized as an image format")

/-- Write a picture under a path. There is only one format that can be written, and the file is made
before that is known. -/
def save {m : Type → Type} [Monad m] [Storage m] (path : String) (r : Raster) :
    m (Except String Unit) := do
  match formatOf path with
  | .error reason => return .error reason
  | .ok "Png" => Storage.write path (Thunk.mk fun _ => Png.encode r)
  | .ok format =>
    let made ← Storage.write path (Thunk.mk fun _ => .empty)
    return made.bind fun _ => .error s!"The image format `{format}` is not supported"

/-- What is said about a picture that was not written. -/
def saveMessage (reason : String) : String := s!"io error: {reason}"

end Picture

/-! ## Numbered frames -/

/-- What writes frames to a folder. -/
structure FrameWriter where
  folder : String
  /-- What the names of all frames start with. -/
  head : String
  /-- The number of frames that were written, and the number of the next one. -/
  written : Nat := 0
  deriving Repr, DecidableEq

namespace FrameWriter

/-- The path of a frame. -/
def path (w : FrameWriter) (number : Nat) : String :=
  Path.join w.folder (w.head ++ Decimal.padded 6 number ++ ".png")

variable {m : Type → Type} [Monad m] [Storage m]

/-- Start writing to a folder, which is made if it is not there. -/
def create (folder head : String) : m (Except String FrameWriter) := do
  return (← Storage.makeFolder folder).map fun _ => { folder := folder, head := head }

/-- Write the next frame. -/
def write (w : FrameWriter) (r : Raster) : m (Except String String × FrameWriter) := do
  let path := w.path w.written
  match ← Picture.save path r with
  | .ok () => return (.ok path, { w with written := w.written + 1 })
  | .error reason => return (.error reason, w)

end FrameWriter

end RideHud
