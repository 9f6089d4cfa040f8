import RideHud.Text.Path

/-!
# Storage

Where files are kept. A program that works with files does so in any monad with a `Storage`, so it
runs on the files of the computer and, without side effects, on files in memory. Failures are values,
given as what the storage says about them.
-/

namespace RideHud

/-- What is found under a path. -/
inductive Found where
  /-- Nothing. -/
  | nothing
  /-- Something that cannot be read. -/
  | unreadable (reason : String)
  | file (content : ByteArray)

/-- Places for files. -/
class Storage (m : Type → Type) where
  /-- Look under a path. -/
  find : String → m Found
  /-- Put a file under a path, in place of the one that was there. -/
  write : String → Thunk ByteArray → m (Except String Unit)
  /-- Make a folder, and the folders that it is in, unless they are there. -/
  makeFolder : String → m (Except String Unit)

namespace Storage

/-- What is said about a folder that is taken for a file. -/
def isFolder : String := "Is a directory (os error 21)"

/-- What is said about a file that is taken for a folder. -/
def noFolder : String := "Not a directory (os error 20)"

/-- What is said about a file that is where a folder should be made. -/
def occupied : String := "File exists (os error 17)"

end Storage

end RideHud
