import RideHud.Wire.Frame
import RideHud.Wire.Source

/-!
# Decoding a stream

A decoder keeps the beginning of a frame between calls, so a stream may deliver its bytes in any
pieces and may block or fail in between. `Decoder.next` reads until a frame is complete, the
stream blocks, fails or ends.
-/

namespace RideHud.Wire

/-- Counts of what a decoder has seen, each modulo `2 ^ 64`. -/
structure Tally where
  /-- Frames decoded. -/
  frames : UInt64 := 0
  /-- Bytes read. -/
  bytes : UInt64 := 0
  /-- Reads that found nothing to read. -/
  blocked : UInt64 := 0
  /-- Reads that failed, and streams that ended inside a frame. -/
  errors : UInt64 := 0
  deriving Repr, DecidableEq

/-- Why samples cannot be had from a stream. -/
inductive StreamError where
  /-- A read or a wait failed. -/
  | io (text : String)
  /-- A frame ended too early. -/
  | malformed (e : Malformed)
  /-- The stream ended after some bytes of a frame. -/
  | truncated (buffered : Nat)
  deriving Repr, DecidableEq

/-- What an error says to the user. -/
def StreamError.message : StreamError → String
  | .io text => s!"stream read failed: {text}"
  | .malformed e => e.message
  | .truncated buffered =>
    s!"stream ended inside a frame ({buffered} of {frameSize} bytes buffered)"

/-- What a stream had to offer. -/
inductive Outcome where
  /-- A complete frame. -/
  | sample (s : RawSample)
  /-- Nothing more for now. -/
  | wouldBlock
  /-- Nothing more at all. -/
  | ended
  deriving Repr, DecidableEq

/-- The beginning of a frame, and the counts if anyone wants them. -/
structure Decoder where
  buffered : List UInt8
  tally : Option Tally
  /-- A complete frame is decoded at once. -/
  buffered_lt : buffered.length < frameSize

namespace Decoder

/-- A decoder that has read nothing. -/
def fresh (counting : Bool) : Decoder where
  buffered := []
  tally := if counting then some {} else none
  buffered_lt := by decide

/-- The decoder with its counts changed. -/
def counted (d : Decoder) (f : Tally → Tally) : Decoder := { d with tally := d.tally.map f }

/-- The decoder with nothing read of the next frame. -/
def emptied (d : Decoder) : Decoder where
  buffered := []
  tally := d.tally
  buffered_lt := by decide

/-- The answer to a call: what was found, the decoder after it, and what the stream will answer
next. -/
structure Answer where
  result : Except StreamError Outcome
  decoder : Decoder
  rest : Source

/-- Count some bytes. -/
def countBytes (n : Nat) (t : Tally) : Tally := { t with bytes := t.bytes + n.toUInt64 }

/-- Count a failure. -/
def countError (t : Tally) : Tally := { t with errors := t.errors + 1 }

/-- The stream is at its end: that is fine between two frames. -/
def atEnd (d : Decoder) (rest : Source) : Answer :=
  if d.buffered.isEmpty then ⟨.ok .ended, d, rest⟩
  else ⟨.error (.truncated d.buffered.length), d.counted countError, rest⟩

/-- The bytes of a frame are complete. -/
def complete (d : Decoder) (frame : List UInt8) (rest : Source) : Answer :=
  match decode frame with
  | .ok s => ⟨.ok (.sample s), d.emptied.counted fun t => { t with frames := t.frames + 1 }, rest⟩
  | .error e => ⟨.error (.malformed e), d.emptied.counted countError, rest⟩

/-- What is left of some bytes after the first `n`, as an event if it is anything. -/
def leftover (bytes : List UInt8) (n : Nat) (rest : Source) : Source :=
  match bytes.drop n with
  | [] => rest
  | b :: bs => .data (b :: bs) :: rest

/-- Read until there is something to answer. -/
def next (d : Decoder) : Source → Answer
  | [] => d.atEnd []
  | .ended :: rest => d.atEnd rest
  | .data [] :: rest => d.atEnd rest
  | .interrupted :: rest => next d rest
  | .wouldBlock :: rest =>
    ⟨.ok .wouldBlock, d.counted fun t => { t with blocked := t.blocked + 1 }, rest⟩
  | .failed text :: rest => ⟨.error (.io text), d.counted countError, rest⟩
  | .data (b :: bs) :: rest =>
    let room := frameSize - d.buffered.length
    let taken := (b :: bs).take room
    if h : taken.length < room then
      next { buffered := d.buffered ++ taken
             tally := d.tally.map (countBytes taken.length)
             buffered_lt := by have := d.buffered_lt; simp only [List.length_append]; omega } rest
    else
      complete (d.counted (countBytes room)) (d.buffered ++ taken)
        (leftover (b :: bs) room rest)

/-! ## Progress -/

/-- What is left of a nonempty event is smaller than the event, if any of it was taken. -/
theorem size_leftover_lt (bytes : List UInt8) (n : Nat) (rest : Source) (hn : 0 < n) :
    Source.size (leftover bytes n rest) < Source.size (.data bytes :: rest) := by
  unfold leftover
  split
  · simp [Event.size]
  · rename_i b bs h
    have := congrArg List.length h
    simp only [List.length_drop, List.length_cons] at this
    simp only [Source.size_cons, Event.size, List.length_cons]
    omega

/-- Completing a frame leaves the stream as it is. -/
@[simp] theorem rest_complete (d : Decoder) (frame : List UInt8) (rest : Source) :
    (d.complete frame rest).rest = rest := by unfold complete; split <;> rfl

/-- At the end of the stream there is neither a frame nor a reason to wait. -/
theorem result_atEnd (d : Decoder) (rest : Source) :
    (d.atEnd rest).result = .ok .ended ∨ ∃ e, (d.atEnd rest).result = .error e := by
  unfold atEnd; split <;> simp

/-- A call that finds a frame or has to wait leaves less of the stream. -/
theorem size_rest_next_lt (d : Decoder) (s : Source) (o : Outcome)
    (h : (d.next s).result = .ok o) (ho : o ≠ .ended) :
    Source.size (d.next s).rest < Source.size s := by
  have atEnd {d : Decoder} {rest s : Source} (h : (d.atEnd rest).result = .ok o) :
      Source.size (d.atEnd rest).rest < Source.size s := by
    rcases result_atEnd d rest with h' | ⟨e, h'⟩ <;> simp_all
  fun_induction next d s with
  | case1 => exact atEnd h
  | case2 => exact atEnd h
  | case3 => exact atEnd h
  | case4 d rest ih => have := ih h; simp [Event.size]; omega
  | case5 => simp [Event.size]
  | case6 => simp at h
  | case7 d rest b bs room taken hlt ih => have := ih h; rw [Source.size_cons]; omega
  | case8 d rest b bs room taken hlt =>
    have := d.buffered_lt
    rw [rest_complete]
    exact size_leftover_lt _ _ _ (by omega)

end Decoder

end RideHud.Wire
