import RideHud.Sample

/-!
# Frames

A sample is recorded as a frame of seventeen words of eight bytes, the lowest byte first: the time,
acceleration, angular rate and magnetic field, a spare time, temperature and pressure, and the
orientation. The measured numbers are kept as the words they are stored in (`RawSample`), so that
reading loses nothing of them; `RawSample.measured` takes them as numbers.
-/

namespace RideHud

/-- A sample whose numbers are still the words of their binary64 form. -/
abbrev RawSample := Sample UInt64

/-- The sample with its words taken as numbers. -/
def RawSample.measured (s : RawSample) : Sample Float := s.map Float.ofBits

/-- The sample with its numbers given as words. -/
def Sample.raw (s : Sample Float) : RawSample := s.map Float.toBits

namespace Wire

/-! ## Words -/

/-- The eight bytes of a word, the lowest first. -/
def bytesOfWord (w : UInt64) : List UInt8 :=
  [w.toUInt8, (w >>> 8).toUInt8, (w >>> 16).toUInt8, (w >>> 24).toUInt8, (w >>> 32).toUInt8,
    (w >>> 40).toUInt8, (w >>> 48).toUInt8, (w >>> 56).toUInt8]

/-- The word of some bytes, the lowest first. -/
def wordOfBytes : List UInt8 → UInt64
  | [] => 0
  | b :: bs => b.toUInt64 ||| (wordOfBytes bs <<< 8)

/-- A word has eight bytes. -/
@[simp] theorem length_bytesOfWord (w : UInt64) : (bytesOfWord w).length = 8 := rfl

/-! ## Layout -/

/-- The parts of a frame. -/
inductive Part where
  | time
  | accel
  | gyro
  | mag
  | spareTime
  | temperature
  | pressure
  | quat
  deriving Repr, DecidableEq

namespace Part

/-- The name that messages use. -/
def name : Part → String
  | .time => "time"
  | .accel => "accel"
  | .gyro => "gyro"
  | .mag => "mag"
  | .spareTime => "spare_time"
  | .temperature => "temperature"
  | .pressure => "pressure"
  | .quat => "quat"

/-- The number of words of a part. -/
def words : Part → Nat
  | .accel | .gyro | .mag => 3
  | .quat => 4
  | _ => 1

end Part

/-- The parts in the order in which they are recorded. -/
def layout : List Part :=
  [.time, .accel, .gyro, .mag, .spareTime, .temperature, .pressure, .quat]

/-- The number of bytes in a frame. -/
def frameSize : Nat := 136

/-- The size of a frame is eight bytes for each word of the layout. -/
theorem frameSize_eq_layout : frameSize = 8 * layout.foldr (fun p n => p.words + n) 0 := rfl

/-! ## Encoding -/

/-- The frame of a sample, with a spare time. -/
def encode (s : RawSample) (spare : UInt64) : List UInt8 :=
  bytesOfWord s.time ++
    (s.accel.toList ++ s.gyro.toList ++ s.mag.toList).flatMap bytesOfWord ++
    bytesOfWord spare ++ bytesOfWord s.temperature ++ bytesOfWord s.pressure ++
    s.quat.toList.flatMap bytesOfWord

/-- Every frame has the same size. -/
@[simp] theorem length_encode (s : RawSample) (spare : UInt64) :
    (encode s spare).length = frameSize := by
  simp [encode, Vec.toList, Quat.toList, frameSize]

/-! ## Decoding -/

/-- The bytes end inside a part: where its word should begin, and how many bytes are left there. -/
structure Malformed where
  offset : Nat
  part : Part
  left : Nat
  deriving Repr, DecidableEq

/-- What a malformed frame says to the user. -/
def Malformed.message (e : Malformed) : String :=
  s!"malformed frame at byte {e.offset}: field '{e.part.name}' needs 8 bytes, {e.left} left"

/-- A place in a frame: how many bytes came before, and which are left. -/
structure Cursor where
  offset : Nat
  rest : List UInt8
  deriving Repr, DecidableEq

/-- Reading from a place in a frame. -/
abbrev Reading (β : Type) := StateT Cursor (Except Malformed) β

/-- The next word, which belongs to a part. -/
def word (part : Part) : Reading UInt64 := fun c =>
  if c.rest.length < 8 then .error ⟨c.offset, part, c.rest.length⟩
  else .ok (wordOfBytes (c.rest.take 8), ⟨c.offset + 8, c.rest.drop 8⟩)

/-- The next three words, which belong to a part. -/
def vec (part : Part) : Reading (Vec UInt64) := do
  return ⟨← word part, ← word part, ← word part⟩

/-- All parts of a frame. -/
def sample : Reading RawSample := do
  let time ← word .time
  let accel ← vec .accel
  let gyro ← vec .gyro
  let mag ← vec .mag
  let _ ← word .spareTime
  let temperature ← word .temperature
  let pressure ← word .pressure
  let quat : Quat UInt64 := ⟨← word .quat, ← word .quat, ← word .quat, ← word .quat⟩
  return ⟨time, accel, gyro, mag, temperature, pressure, quat⟩

/-- The sample of the frame at the front of some bytes. -/
def decode (bytes : List UInt8) : Except Malformed RawSample := (sample.run ⟨0, bytes⟩).map (·.1)

end Wire

end RideHud
