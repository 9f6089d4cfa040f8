import RideHud.Storage.Disk
import RideHud.Wire.Source

/-!
# Hosts

What a command runs in: storage, an input and a clock. Commands know of nothing else, so they run on a
computer and, without side effects, in a rehearsal.
-/

namespace RideHud.Console

/-- Surroundings of a command. -/
class Host (m : Type → Type) extends Storage m where
  /-- What is read from the input. -/
  input : m Wire.Source
  /-- The time on a clock that never goes back, in milliseconds. -/
  millis : m Float

/-- A run on a disk in memory, with an input that is known and a clock that stands still. -/
abbrev Rehearsal := ReaderT Wire.Source (StateM Disk)

instance : Host Rehearsal where
  find path := fun _ => Storage.find path
  write path content := fun _ => Storage.write path content
  makeFolder path := fun _ => Storage.makeFolder path
  input := read
  millis := pure 0

end RideHud.Console
