import RideHud.Storage

/-!
# Files in memory

A disk holds files and folders under lists of names. Nothing is put into a folder that is not there.
-/

namespace RideHud

/-- A place on a disk: the names that lead to it. -/
abbrev Place := List String

/-- Files and folders. -/
structure Disk where
  files : List (Place × Thunk ByteArray) := []
  folders : List Place := [[]]

namespace Disk

/-- The place that a path leads to. A name that leads back up takes the one before it away. -/
def place (path : String) : Place :=
  let names := (Path.names path).foldl (fun names name =>
    if name == ".." && !names.isEmpty then names.dropLast else names ++ [name]) []
  if Path.isAbsolute path then "/" :: names else names

/-- The places on the way to a place, which comes last. -/
def way (p : Place) : List Place := (List.range (p.length + 1)).map p.take

/-- The file at a place. -/
def file? (d : Disk) (p : Place) : Option (Thunk ByteArray) := d.files.lookup p

/-- Whether a place is a folder. -/
def isFolder (d : Disk) (p : Place) : Bool := d.folders.contains p

/-- Whether a place is a file. -/
def isFile (d : Disk) (p : Place) : Bool := (d.file? p).isSome

/-- Whether the way to a place leads through a file. -/
def isBlocked (d : Disk) (p : Place) : Bool := (way p.dropLast).any d.isFile

/-- What is found at a place. -/
def find (d : Disk) (p : Place) : Found :=
  if d.isFolder p then .unreadable Storage.isFolder
  else
    match d.file? p with
    | some content => .file content.get
    | none => .nothing

/-- Put a file at a place. -/
def write (d : Disk) (p : Place) (content : Thunk ByteArray) : Except String Disk :=
  if d.isBlocked p then .error Storage.noFolder
  else if d.isFolder p then .error Storage.isFolder
  else if !d.isFolder p.dropLast then .error Path.notFound
  else .ok { d with files := (p, content) :: d.files.filter fun f => f.1 != p }

/-- Make a folder and those that it is in. -/
def makeFolder (d : Disk) (p : Place) : Except String Disk :=
  if d.isBlocked p then .error Storage.noFolder
  else if d.isFile p then .error Storage.occupied
  else .ok { d with folders := d.folders ++ (way p).filter fun q => !d.isFolder q }

/-- Take a folder away with all that is in it. -/
def removeFolder (d : Disk) (p : Place) : Disk :=
  { files := d.files.filter fun f => !p.isPrefixOf f.1
    folders := d.folders.filter fun q => !p.isPrefixOf q }

/-- Change the disk unless that fails. -/
def update (change : Disk → Except String Disk) : StateM Disk (Except String Unit) := fun d =>
  match change d with
  | .ok d => (.ok (), d)
  | .error reason => (.error reason, d)

instance : Storage (StateM Disk) where
  find path d := (d.find (place path), d)
  write path content := update fun d => d.write (place path) content
  makeFolder path := update fun d => d.makeFolder (place path)

/-- A file that was written is found again. -/
theorem file?_of_write {d e : Disk} {p : Place} {content : Thunk ByteArray}
    (h : d.write p content = .ok e) : e.file? p = some content := by
  unfold write at h
  split at h
  · simp at h
  split at h
  · simp at h
  split at h
  · simp at h
  · cases h; simp [file?]

end Disk

end RideHud
