import RideHud.Wire.Decoder

/-!
# Loading a recording

All samples of a stream, up to its end. Whenever the stream blocks, the loader waits for it. A
failure of the stream or of a wait gives up what was loaded. There is always room for one more sample:
what a machine that runs out of memory does is left out.
-/

namespace RideHud.Wire

/-- The outcome of loading, the number of waits, the counts, and what the stream will answer
next. -/
structure Load where
  result : Except StreamError (List RawSample)
  waits : Nat
  tally : Option Tally
  rest : Source

/-- Whether the `n`-th wait fails, counted from one, and what is said then. -/
abbrev Waiting := Nat → Option String

/-- Every wait ends well. -/
def Waiting.patient : Waiting := fun _ => none

/-- Load what is left of a stream, after some waits and some samples, which are given in reverse. -/
def loadFrom (waiting : Waiting) (waits : Nat) (loaded : List RawSample) (d : Decoder)
    (s : Source) : Load :=
  match _h : (d.next s).result with
  | .ok (.sample x) => loadFrom waiting waits (x :: loaded) (d.next s).decoder (d.next s).rest
  | .ok .wouldBlock =>
    match waiting (waits + 1) with
    | some text => ⟨.error (.io text), waits + 1, (d.next s).decoder.tally, (d.next s).rest⟩
    | none => loadFrom waiting (waits + 1) loaded (d.next s).decoder (d.next s).rest
  | .ok .ended => ⟨.ok loaded.reverse, waits, (d.next s).decoder.tally, (d.next s).rest⟩
  | .error e => ⟨.error e, waits, (d.next s).decoder.tally, (d.next s).rest⟩
termination_by s.size
decreasing_by
  · exact Decoder.size_rest_next_lt d s _ _h nofun
  · exact Decoder.size_rest_next_lt d s _ _h nofun

/-- Load all samples of a stream. -/
def load (waiting : Waiting) (s : Source) : Load := loadFrom waiting 0 [] (.fresh true) s

/-- The samples of bytes that are all there at once. -/
def loadBytes (bytes : List UInt8) : Except StreamError (List RawSample) :=
  (load .patient [.data bytes]).result

end RideHud.Wire
