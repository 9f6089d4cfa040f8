/-!
# Sources of bytes

A source is what a stream will answer to the reads to come, one event after the other. Data is
handed out as far as the reader has room; what does not fit is there for the next read.
-/

namespace RideHud.Wire

/-- What a stream answers to a read. -/
inductive Event where
  /-- Some bytes. -/
  | data (bytes : List UInt8)
  /-- There is nothing to read now. -/
  | wouldBlock
  /-- The read was interrupted before it began. -/
  | interrupted
  /-- The read failed. -/
  | failed (text : String)
  /-- The stream is at its end. -/
  | ended
  deriving Repr, DecidableEq

/-- The answers of a stream; when they are used up, the stream is at its end. -/
abbrev Source := List Event

/-- An upper bound on the reads that an event answers. -/
def Event.size : Event → Nat
  | .data bytes => bytes.length + 1
  | _ => 1

/-- An upper bound on the reads until a stream is used up. -/
def Source.size (s : Source) : Nat := s.foldr (fun e n => e.size + n) 0

@[simp] theorem Source.size_nil : Source.size [] = 0 := rfl

@[simp] theorem Source.size_cons (e : Event) (s : Source) :
    Source.size (e :: s) = e.size + Source.size s := by simp [Source.size]

end RideHud.Wire
