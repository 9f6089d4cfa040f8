import Mathlib.Data.Nat.Digits.Lemmas
import RideHud.Wire.Frame

/-!
# Frames and samples

Encoding and decoding are inverse to each other, up to the spare time, of which a sample keeps
nothing. The main facts are

* `wordOfBytes_bytesOfWord` and `bytesOfWord_wordOfBytes`: a word is its eight bytes;
* `exists_eq_encode`: every list of as many bytes as a frame has is a frame;
* `decode_encode_append`: a frame is decoded to its sample, whatever follows it;
* `frames_append`: bytes are cut into frames from the left, so that what comes later does not
  change the frames before it.
-/

namespace RideHud.Wire

/-! ## Words and their bytes -/

/-- The number that some bytes tell, the lowest first. -/
def numberOfBytes (bs : List UInt8) : Nat := Nat.ofDigits 256 (bs.map UInt8.toNat)

/-- A byte is a digit to the base 256. -/
theorem lt_of_mem_map_toNat (bs : List UInt8) : ∀ d ∈ bs.map UInt8.toNat, d < 256 := by
  intro d hd
  obtain ⟨b, -, rfl⟩ := List.mem_map.mp hd
  exact b.toNat_lt

/-- A number is bounded by how many bytes tell it. -/
theorem numberOfBytes_lt (bs : List UInt8) : numberOfBytes bs < 256 ^ bs.length := by
  have h := Nat.ofDigits_lt_base_pow_length (by norm_num) (lt_of_mem_map_toNat bs)
  rwa [List.length_map] at h

/-- Bytes that are equally many and tell the same number are the same. -/
theorem eq_of_numberOfBytes_eq {bs cs : List UInt8} (hlen : bs.length = cs.length)
    (h : numberOfBytes bs = numberOfBytes cs) : bs = cs := by
  apply List.map_injective_iff.mpr (fun _ _ => UInt8.toNat_inj.mp)
  apply Nat.injOn_ofDigits (b := 256) (by norm_num) cs.length
  · exact ⟨by rw [List.length_map, hlen], lt_of_mem_map_toNat bs⟩
  · exact ⟨List.length_map _, lt_of_mem_map_toNat cs⟩
  · exact h

/-- The bytes of a word tell the word. -/
theorem numberOfBytes_bytesOfWord (w : UInt64) : numberOfBytes (bytesOfWord w) = w.toNat := by
  have hw := w.toNat_lt
  simp only [numberOfBytes, bytesOfWord, List.map_cons, List.map_nil, Nat.ofDigits_cons,
    Nat.ofDigits_nil, UInt64.toNat_toUInt8, UInt64.toNat_shiftRight, Nat.shiftRight_eq_div_pow,
    UInt64.toNat_ofNat]
  norm_num
  omega

/-- At most eight bytes tell the word that is read from them. -/
theorem toNat_wordOfBytes (bs : List UInt8) (h : bs.length ≤ 8) :
    (wordOfBytes bs).toNat = numberOfBytes bs := by
  induction bs with
  | nil => rfl
  | cons b bs ih =>
      rw [List.length_cons] at h
      have hb : b.toNat < 2 ^ 8 := b.toNat_lt
      have hlt : numberOfBytes bs < 256 ^ 7 :=
        (numberOfBytes_lt bs).trans_le (Nat.pow_le_pow_right (by norm_num) (by omega))
      have hshift : (wordOfBytes bs <<< 8).toNat = numberOfBytes bs <<< 8 := by
        rw [UInt64.toNat_shiftLeft, ih (by omega), UInt64.toNat_ofNat]
        apply Nat.mod_eq_of_lt
        norm_num [Nat.shiftLeft_eq]
        omega
      -- The lowest byte and the others share no bit, so that they are added.
      rw [wordOfBytes, UInt64.toNat_or, hshift, UInt8.toNat_toUInt64, Nat.or_comm,
        ← Nat.shiftLeft_add_eq_or_of_lt hb, Nat.shiftLeft_eq, numberOfBytes, numberOfBytes,
        List.map_cons, Nat.ofDigits_cons]
      ring

/-- A word is read back from its bytes. -/
@[simp] theorem wordOfBytes_bytesOfWord (w : UInt64) : wordOfBytes (bytesOfWord w) = w := by
  apply UInt64.toNat_inj.mp
  rw [toNat_wordOfBytes _ (length_bytesOfWord w).le, numberOfBytes_bytesOfWord]

/-- Eight bytes are those of the word that is read from them. -/
theorem bytesOfWord_wordOfBytes (bs : List UInt8) (h : bs.length = 8) :
    bytesOfWord (wordOfBytes bs) = bs := by
  apply eq_of_numberOfBytes_eq (by rw [length_bytesOfWord, h])
  rw [numberOfBytes_bytesOfWord, toNat_wordOfBytes bs h.le]

/-! ## Frames as words -/

/-- The words of a frame before its spare time. -/
def frontWords (s : RawSample) : List UInt64 :=
  [s.time, s.accel.x, s.accel.y, s.accel.z, s.gyro.x, s.gyro.y, s.gyro.z,
    s.mag.x, s.mag.y, s.mag.z]

/-- The words of a frame after its spare time. -/
def backWords (s : RawSample) : List UInt64 :=
  [s.temperature, s.pressure, s.quat.w, s.quat.x, s.quat.y, s.quat.z]

/-- A frame is its words one after the other. -/
theorem encode_eq_flatMap (s : RawSample) (spare : UInt64) :
    encode s spare = (frontWords s ++ spare :: backWords s).flatMap bytesOfWord := by
  simp [encode, frontWords, backWords, Vec.toList, Quat.toList]

/-- Bytes that fill `n` words are the bytes of `n` words. -/
theorem exists_eq_flatMap_bytesOfWord (n : ℕ) (bs : List UInt8) (h : bs.length = 8 * n) :
    ∃ ws : List UInt64, ws.length = n ∧ bs = ws.flatMap bytesOfWord := by
  induction n generalizing bs with
  | zero => exact ⟨[], rfl, List.length_eq_zero_iff.mp h⟩
  | succ n ih =>
      obtain ⟨ws, hlen, hws⟩ := ih (bs.drop 8) (by rw [List.length_drop]; omega)
      refine ⟨wordOfBytes (bs.take 8) :: ws, by rw [List.length_cons, hlen], ?_⟩
      rw [List.flatMap_cons, bytesOfWord_wordOfBytes _ (by rw [List.length_take]; omega), ← hws,
        List.take_append_drop]

/-- Every list of as many bytes as a frame has is a frame. -/
theorem exists_eq_encode (bs : List UInt8) (h : bs.length = frameSize) :
    ∃ s spare, bs = encode s spare := by
  obtain ⟨ws, hlen, rfl⟩ := exists_eq_flatMap_bytesOfWord 17 bs h
  match ws, hlen with
  | [t, ax, ay, az, gx, gy, gz, mx, my, mz, spare, temp, press, qw, qx, qy, qz], _ =>
      refine ⟨⟨t, ⟨ax, ay, az⟩, ⟨gx, gy, gz⟩, ⟨mx, my, mz⟩, temp, press, ⟨qw, qx, qy, qz⟩⟩,
        spare, ?_⟩
      rw [encode_eq_flatMap]
      rfl

/-! ## Reading -/

/-- The word at the front is read, and the place moves behind it. -/
theorem word_bytesOfWord_append (p : Part) (w : UInt64) (o : ℕ) (rest : List UInt8) :
    word p ⟨o, bytesOfWord w ++ rest⟩ = .ok (w, ⟨o + 8, rest⟩) := by
  have htake : (bytesOfWord w ++ rest).take 8 = bytesOfWord w := List.take_left' rfl
  have hdrop : (bytesOfWord w ++ rest).drop 8 = rest := List.drop_left' rfl
  rw [word, if_neg (by simp), htake, hdrop, wordOfBytes_bytesOfWord]

/-- Reading goes on behind the word at the front. -/
theorem bind_word_append {β : Type} (p : Part) (f : UInt64 → Reading β) (w : UInt64) (o : ℕ)
    (rest : List UInt8) :
    (word p >>= f) ⟨o, bytesOfWord w ++ rest⟩ = f w ⟨o + 8, rest⟩ := by
  show (word p ⟨o, bytesOfWord w ++ rest⟩ >>= fun r => f r.1 r.2) = _
  rw [word_bytesOfWord_append]
  rfl

/-- The sample of the frame at the front is read, and the place moves behind the frame. -/
theorem sample_encode_append (s : RawSample) (spare : UInt64) (o : ℕ) (rest : List UInt8) :
    sample ⟨o, encode s spare ++ rest⟩ = .ok (s, ⟨o + frameSize, rest⟩) := by
  rw [encode_eq_flatMap]
  simp only [frontWords, backWords, List.cons_append, List.nil_append, List.flatMap_cons,
    List.flatMap_nil, List.append_assoc, List.append_nil, sample, vec, bind_assoc, pure_bind,
    bind_word_append]
  rfl

/-- A frame is decoded to its sample, whatever follows it. -/
theorem decode_encode_append (s : RawSample) (spare : UInt64) (rest : List UInt8) :
    decode (encode s spare ++ rest) = .ok s := by
  rw [decode, StateT.run, sample_encode_append]
  rfl

/-- A frame is decoded to its sample. -/
theorem decode_encode (s : RawSample) (spare : UInt64) : decode (encode s spare) = .ok s := by
  rw [← List.append_nil (encode s spare), decode_encode_append]

/-- As many bytes as a frame has are decoded, whatever follows them. -/
theorem exists_decode_eq_ok (bs : List UInt8) (h : frameSize ≤ bs.length) :
    ∃ s, decode bs = .ok s := by
  have hfront : (bs.take frameSize).length = frameSize := by rw [List.length_take]; omega
  obtain ⟨s, spare, hs⟩ := exists_eq_encode (bs.take frameSize) hfront
  refine ⟨s, ?_⟩
  rw [← List.take_append_drop frameSize bs, hs, decode_encode_append]

/-! ## The spare time -/

/-- The bytes of a frame before its spare time. -/
theorem take_encode (s : RawSample) (spare : UInt64) :
    (encode s spare).take 80 = (frontWords s).flatMap bytesOfWord := by
  rw [encode_eq_flatMap, List.flatMap_append]
  exact List.take_left' rfl

/-- The bytes of a frame from its spare time on. -/
theorem drop_encode (s : RawSample) (spare : UInt64) :
    (encode s spare).drop 80 = bytesOfWord spare ++ (backWords s).flatMap bytesOfWord := by
  rw [encode_eq_flatMap, List.flatMap_append]
  exact List.drop_left' rfl

/-- The spare time stands in the bytes from 80 to 88. -/
theorem slice_encode (s : RawSample) (spare : UInt64) :
    ((encode s spare).drop 80).take 8 = bytesOfWord spare := by
  rw [drop_encode]
  exact List.take_left' rfl

/-- The bytes of a frame after its spare time. -/
theorem drop_encode_spare (s : RawSample) (spare : UInt64) :
    (encode s spare).drop 88 = (backWords s).flatMap bytesOfWord := by
  rw [← List.drop_drop (i := 8) (j := 80), drop_encode]
  exact List.drop_left' rfl

/-- Frames that differ in nothing but their spare times have the same sample. -/
theorem eq_of_encode_agree {s t : RawSample} {a b : UInt64}
    (hfront : (encode s a).take 80 = (encode t b).take 80)
    (hback : (encode s a).drop 88 = (encode t b).drop 88) : s = t := by
  rw [take_encode, take_encode] at hfront
  rw [drop_encode_spare, drop_encode_spare] at hback
  -- The spare times may differ, so the same one is given to both.
  have h : encode s 0 = encode t 0 := by
    simp only [encode_eq_flatMap, List.flatMap_append, List.flatMap_cons, hfront, hback]
  have hdec : decode (encode s 0) = decode (encode t 0) := by rw [h]
  rw [decode_encode, decode_encode] at hdec
  exact Except.ok.inj hdec

/-! ## Frames in a row -/

/-- The frames that some bytes begin with, each behind the one before it. -/
def frames (bs : List UInt8) : List (List UInt8) :=
  (List.range (bs.length / frameSize)).map fun k => (bs.drop (frameSize * k)).take frameSize

/-- What some bytes have left after their last whole frame. -/
def remainder (bs : List UInt8) : List UInt8 := bs.drop (frameSize * (bs.length / frameSize))

/-- There are as many frames as fit. -/
@[simp] theorem length_frames (bs : List UInt8) :
    (frames bs).length = bs.length / frameSize := by
  rw [frames, List.length_map, List.length_range]

/-- Less than a frame is left. -/
@[simp] theorem length_remainder (bs : List UInt8) :
    (remainder bs).length = bs.length % frameSize := by
  have h := Nat.div_add_mod bs.length frameSize
  rw [remainder, List.length_drop]
  omega

/-- Fewer bytes than a frame has hold no frame. -/
theorem frames_of_length_lt {bs : List UInt8} (h : bs.length < frameSize) : frames bs = [] := by
  rw [frames, Nat.div_eq_of_lt h, List.range_zero, List.map_nil]

/-- Fewer bytes than a frame has are all left. -/
theorem remainder_of_length_lt {bs : List UInt8} (h : bs.length < frameSize) :
    remainder bs = bs := by
  rw [remainder, Nat.div_eq_of_lt h, Nat.mul_zero, List.drop_zero]

/-- The bytes behind a frame are counted from there. -/
theorem length_append_div {f : List UInt8} (hf : f.length = frameSize) (bs : List UInt8) :
    (f ++ bs).length / frameSize = bs.length / frameSize + 1 := by
  rw [List.length_append, hf, Nat.add_comm, Nat.add_div_right _ (by decide)]

/-- A frame at the front is the first one. -/
theorem frames_cons {f : List UInt8} (hf : f.length = frameSize) (bs : List UInt8) :
    frames (f ++ bs) = f :: frames bs := by
  rw [frames, length_append_div hf, List.range_succ_eq_map, List.map_cons, List.map_map]
  congr 1
  · rw [Nat.mul_zero, List.drop_zero, List.take_left' hf]
  · apply List.map_congr_left
    intro k _
    show ((f ++ bs).drop (frameSize * (k + 1))).take frameSize = _
    rw [show frameSize * (k + 1) = f.length + frameSize * k by rw [hf]; ring,
      ← List.drop_drop, List.drop_left]

/-- A frame at the front does not change what is left. -/
theorem remainder_cons {f : List UInt8} (hf : f.length = frameSize) (bs : List UInt8) :
    remainder (f ++ bs) = remainder bs := by
  rw [remainder, length_append_div hf,
    show frameSize * (bs.length / frameSize + 1) = f.length + frameSize * (bs.length / frameSize) by
      rw [hf]; ring,
    ← List.drop_drop, List.drop_left, remainder]

/-- As many bytes as a frame has are one frame, and nothing is left. -/
theorem frames_of_length_eq {f : List UInt8} (hf : f.length = frameSize) :
    frames f = [f] ∧ remainder f = [] := by
  have hframes := frames_cons hf []
  have hleft := remainder_cons hf []
  rw [List.append_nil] at hframes hleft
  rw [hframes, hleft]
  exact ⟨rfl, rfl⟩

/-- Bytes are a whole frame and more, or fewer than a frame has. -/
theorem frames_induction {motive : List UInt8 → Prop}
    (short : ∀ bs : List UInt8, bs.length < frameSize → motive bs)
    (cons : ∀ f bs : List UInt8, f.length = frameSize → motive bs → motive (f ++ bs))
    (bs : List UInt8) : motive bs := by
  induction h : bs.length using Nat.strong_induction_on generalizing bs with
  | _ n ih =>
      by_cases hlt : bs.length < frameSize
      · exact short bs hlt
      · have hsize : frameSize = 136 := rfl
        have hf : (bs.take frameSize).length = frameSize := by rw [List.length_take]; omega
        rw [← List.take_append_drop frameSize bs]
        exact cons _ _ hf (ih _ (by rw [List.length_drop]; omega) _ rfl)

/-- **Frames are cut from the left.** More bytes go on from what the first ones had left. -/
theorem frames_append (bs cs : List UInt8) :
    frames (bs ++ cs) = frames bs ++ frames (remainder bs ++ cs) := by
  induction bs using frames_induction with
  | short bs hlt => rw [frames_of_length_lt hlt, remainder_of_length_lt hlt, List.nil_append]
  | cons f bs hf ih =>
      rw [List.append_assoc, frames_cons hf, frames_cons hf, remainder_cons hf, ih,
        List.cons_append]

/-- What is left of more bytes is what is left behind the frames of the first ones. -/
theorem remainder_append (bs cs : List UInt8) :
    remainder (bs ++ cs) = remainder (remainder bs ++ cs) := by
  induction bs using frames_induction with
  | short bs hlt => rw [remainder_of_length_lt hlt]
  | cons f bs hf ih => rw [List.append_assoc, remainder_cons hf, remainder_cons hf, ih]

/-- Every frame of some bytes is decoded. -/
theorem exists_map_decode_frames (bs : List UInt8) :
    ∃ xs : List RawSample, (frames bs).map decode = xs.map .ok := by
  induction bs using frames_induction with
  | short bs hlt => exact ⟨[], by rw [frames_of_length_lt hlt, List.map_nil, List.map_nil]⟩
  | cons f bs hf ih =>
      obtain ⟨x, hx⟩ := exists_decode_eq_ok f hf.ge
      obtain ⟨xs, hxs⟩ := ih
      exact ⟨x :: xs, by rw [frames_cons hf, List.map_cons, List.map_cons, hx, hxs]⟩

/-- There are as many samples as whole frames. -/
theorem length_eq_of_map_decode_frames {bs : List UInt8} {xs : List RawSample}
    (h : (frames bs).map decode = xs.map .ok) : xs.length = bs.length / frameSize := by
  have hlen := congrArg List.length h
  rw [List.length_map, List.length_map, length_frames] at hlen
  exact hlen.symm

/-- Samples in a row are decoded from their frames. -/
theorem map_decode_frames_flatMap_encode (ys : List (RawSample × UInt64)) :
    (frames (ys.flatMap fun y => encode y.1 y.2)).map decode = (ys.map Prod.fst).map .ok := by
  induction ys with
  | nil => rw [List.flatMap_nil, frames_of_length_lt (by decide), List.map_nil, List.map_nil,
      List.map_nil]
  | cons y ys ih =>
      rw [List.flatMap_cons, frames_cons (length_encode _ _), List.map_cons, decode_encode, ih,
        List.map_cons, List.map_cons]

/-- The frames of samples in a row leave nothing. -/
theorem length_flatMap_encode (ys : List (RawSample × UInt64)) :
    (ys.flatMap fun y => encode y.1 y.2).length = frameSize * ys.length := by
  induction ys with
  | nil => rfl
  | cons y ys ih =>
      rw [List.flatMap_cons, List.length_append, length_encode, ih, List.length_cons, Nat.mul_succ,
        Nat.add_comm]

/-! ## The main theorem -/

/-- **Frames and samples correspond.** A frame has 136 bytes and is decoded to the sample it was
made of. Every list of 136 bytes is decoded, and its sample together with the word in its bytes
from 80 to 88 gives it back. Two such lists have the same sample if and only if they agree outside
of these bytes. -/
theorem codec_bijective :
    (∀ (s : RawSample) (spare : UInt64),
      (encode s spare).length = 136 ∧ decode (encode s spare) = .ok s) ∧
    (∀ bs : List UInt8, bs.length = 136 →
      ∃ s, decode bs = .ok s ∧ encode s (wordOfBytes ((bs.drop 80).take 8)) = bs) ∧
    (∀ bs cs : List UInt8, bs.length = 136 → cs.length = 136 →
      (decode bs = decode cs ↔ bs.take 80 = cs.take 80 ∧ bs.drop 88 = cs.drop 88)) := by
  refine ⟨fun s spare => ⟨length_encode s spare, decode_encode s spare⟩, ?_, ?_⟩
  · intro bs h
    obtain ⟨s, spare, rfl⟩ := exists_eq_encode bs h
    refine ⟨s, decode_encode s spare, ?_⟩
    rw [slice_encode, wordOfBytes_bytesOfWord]
  · intro bs cs hbs hcs
    obtain ⟨s, a, rfl⟩ := exists_eq_encode bs hbs
    obtain ⟨t, b, rfl⟩ := exists_eq_encode cs hcs
    rw [decode_encode, decode_encode]
    constructor
    · intro h
      obtain rfl := Except.ok.inj h
      rw [take_encode, take_encode, drop_encode_spare, drop_encode_spare]
      exact ⟨rfl, rfl⟩
    · rintro ⟨hfront, hback⟩
      rw [eq_of_encode_agree hfront hback]

/-- Frames with nothing but ones, and with a spare time of zero in between: all their numbers are
the same, none of which is a number. -/
theorem codec_bijective_ones :
    (List.replicate 136 (0xff : UInt8)).length = 136 ∧
      (List.replicate 80 (0xff : UInt8) ++ List.replicate 8 0 ++ List.replicate 48 0xff).length
        = 136 ∧
      (∃ s, decode (List.replicate 136 0xff) = .ok s ∧
        encode s (wordOfBytes (((List.replicate 136 0xff).drop 80).take 8))
          = List.replicate 136 0xff) ∧
      decode (List.replicate 136 0xff)
        = decode (List.replicate 80 0xff ++ List.replicate 8 0 ++ List.replicate 48 0xff) := by
  have hones : (List.replicate 136 (0xff : UInt8)).length = 136 := List.length_replicate
  have hgap : (List.replicate 80 (0xff : UInt8) ++ List.replicate 8 0
      ++ List.replicate 48 0xff).length = 136 := by simp
  refine ⟨hones, hgap, codec_bijective.2.1 _ hones, ?_⟩
  exact (codec_bijective.2.2 _ _ hones hgap).mpr ⟨by decide, by decide⟩

end RideHud.Wire
