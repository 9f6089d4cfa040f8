import RideHud.Proofs.Wire.Codec
import RideHud.Wire.Decoder

/-!
# Calls of a decoder

A call reads past some events of the stream and is answered by one of them. Whatever that is, no
byte is lost: what was handed out makes up the frames of the samples answered, and what is left of
it is buffered (`Conserves`). As this holds of a stretch of calls if it holds of its parts
(`Conserves.trans`), it is shown of each event once.

* `called_next`: up to where a stream first ends or fails, a call is answered by a sample or a wait,
  or it reads up to there;
* `exists_conserves_next`: every call conserves bytes.
-/

namespace RideHud.Wire

/-! ## What a stream delivers -/

/-- The bytes of an event. -/
def Event.bytes : Event → List UInt8
  | .data bs => bs
  | _ => []

/-- The event neither ends the stream nor is a failure of it. -/
def Event.goesOn : Event → Bool
  | .data bs => !bs.isEmpty
  | .wouldBlock | .interrupted => true
  | .failed _ | .ended => false

namespace Source

/-- All bytes that a stream has to hand out, ends and failures in between or not. -/
def bytes (s : Source) : List UInt8 := s.flatMap Event.bytes

/-- How often a stream blocks. -/
def blocks (s : Source) : ℕ := s.count .wouldBlock

/-- The events before a stream first ends or fails. -/
def live (s : Source) : Source := s.takeWhile Event.goesOn

/-- The events from the first end or failure of a stream on. -/
def close (s : Source) : Source := s.dropWhile Event.goesOn

/-- What the failure says that a stream begins with. -/
def failure? : Source → Option String
  | .failed text :: _ => some text
  | _ => none

/-- A stream neither ends nor fails before its events are used up. -/
def Live (s : Source) : Prop := ∀ e ∈ s, e.goesOn = true

instance (s : Source) : Decidable s.Live :=
  inferInstanceAs (Decidable (∀ e ∈ s, e.goesOn = true))

@[simp] theorem bytes_nil : bytes [] = [] := rfl

@[simp] theorem bytes_cons (e : Event) (s : Source) : bytes (e :: s) = e.bytes ++ bytes s := rfl

@[simp] theorem bytes_append (s t : Source) : bytes (s ++ t) = bytes s ++ bytes t :=
  List.flatMap_append

/-- Ends of a stream hand out nothing. -/
theorem bytes_replicate_ended (k : ℕ) : bytes (List.replicate k .ended) = [] := by
  induction k with
  | zero => rfl
  | succ k ih => rw [List.replicate_succ, bytes_cons, ih]; rfl

@[simp] theorem blocks_nil : blocks [] = 0 := rfl

@[simp] theorem blocks_append (s t : Source) : blocks (s ++ t) = blocks s + blocks t :=
  List.count_append

@[simp] theorem size_append (s t : Source) : size (s ++ t) = size s + size t := by
  induction s with
  | nil => simp
  | cons e s ih => rw [List.cons_append, size_cons, size_cons, ih, Nat.add_assoc]

theorem live_nil : Live [] := by simp [Live]

theorem live_cons {e : Event} {s : Source} : Live (e :: s) ↔ e.goesOn = true ∧ Live s :=
  List.forall_mem_cons

theorem live_live (s : Source) : Live s.live := List.all_eq_true.mp List.all_takeWhile

theorem live_append_close (s : Source) : s.live ++ s.close = s :=
  List.takeWhile_append_dropWhile

/-- A stream is used up, or it ends or fails. -/
theorem close_cases (s : Source) :
    s.close = [] ∨ ∃ e rest, s.close = e :: rest ∧ e.goesOn = false := by
  have hhead := List.head?_dropWhile_not Event.goesOn s
  rw [← close] at hhead
  cases hclose : s.close with
  | nil => exact .inl rfl
  | cons e rest =>
      rw [hclose] at hhead
      exact .inr ⟨e, rest, rfl, by simpa using hhead⟩

/-- An end or a failure hands out nothing. -/
theorem bytes_tail_close (s : Source) : bytes s.close.tail = s.close.bytes := by
  rcases s.close_cases with hclose | ⟨e, rest, hclose, he⟩
  · rw [hclose]
    rfl
  · rw [hclose, bytes_cons]
    cases e with
    | data bs =>
        obtain rfl : bs = [] := by simpa [Event.goesOn] using he
        rfl
    | wouldBlock => cases he
    | interrupted => cases he
    | failed text => rfl
    | ended => rfl

/-- An end or a failure is nothing to wait for. -/
theorem blocks_tail_close (s : Source) : blocks s.close.tail = s.close.blocks := by
  rcases s.close_cases with hclose | ⟨e, rest, hclose, he⟩
  · rw [hclose]
    rfl
  · have hne : e ≠ .wouldBlock := by
      rintro rfl
      cases he
    rw [hclose, List.tail_cons, blocks, blocks, List.count_cons_of_ne hne]

end Source

/-! ## What is counted -/

/-- Counts of two stretches are added. -/
instance : Add Tally where
  add s t := ⟨s.frames + t.frames, s.bytes + t.bytes, s.blocked + t.blocked, s.errors + t.errors⟩

theorem Tally.add_def (s t : Tally) :
    s + t = ⟨s.frames + t.frames, s.bytes + t.bytes, s.blocked + t.blocked,
      s.errors + t.errors⟩ := rfl

theorem Tally.add_assoc (s t u : Tally) : s + t + u = s + (t + u) := by
  simp only [Tally.add_def, UInt64.add_assoc]

theorem Tally.add_zero (t : Tally) : t + {} = t := by
  simp only [Tally.add_def, UInt64.add_zero]

theorem Tally.zero_add (t : Tally) : {} + t = t := by
  simp only [Tally.add_def, UInt64.zero_add]

namespace Decoder

/-- What a call answers. -/
abbrev Reply := Except StreamError Outcome

/-- The sample of an answer. -/
def Reply.sample? : Reply → Option RawSample
  | .ok (.sample x) => some x
  | _ => none

/-- The answer tells to wait. -/
def Reply.isBlocked : Reply → Bool
  | .ok .wouldBlock => true
  | _ => false

/-- The answer is an error. -/
def Reply.isError : Reply → Bool
  | .ok _ => false
  | .error _ => true

/-- The samples among some answers. -/
def samples (rs : List Reply) : List RawSample := rs.filterMap Reply.sample?

@[simp] theorem samples_nil : samples [] = [] := rfl

@[simp] theorem samples_cons_sample (x : RawSample) (rs : List Reply) :
    samples (.ok (.sample x) :: rs) = x :: samples rs := rfl

@[simp] theorem samples_cons_wouldBlock (rs : List Reply) :
    samples (.ok .wouldBlock :: rs) = samples rs := rfl

@[simp] theorem samples_cons_error (e : StreamError) (rs : List Reply) :
    samples (.error e :: rs) = samples rs := rfl

@[simp] theorem samples_append (rs rs' : List Reply) :
    samples (rs ++ rs') = samples rs ++ samples rs' := List.filterMap_append

/-- What is to be counted when bytes were handed out and answers were given. -/
def count (handed : List UInt8) (rs : List Reply) : Tally where
  frames := (samples rs).length.toUInt64
  bytes := handed.length.toUInt64
  blocked := (rs.countP Reply.isBlocked).toUInt64
  errors := (rs.countP Reply.isError).toUInt64

theorem count_append (h h' : List UInt8) (rs rs' : List Reply) :
    count (h ++ h') (rs ++ rs') = count h rs + count h' rs' := by
  simp [count, Tally.add_def]

@[simp] theorem count_nil : count [] [] = {} := rfl

/-- Bytes are counted as they are handed out. -/
theorem countBytes_eq (bs : List UInt8) (t : Tally) :
    countBytes bs.length t = t + count bs [] := by
  simp [countBytes, Tally.add_def, count]

/-- A sample is counted as it is answered. -/
theorem countFrame_eq (x : RawSample) (t : Tally) :
    { t with frames := t.frames + 1 } = t + count [] [.ok (.sample x)] := by
  simp [Tally.add_def, count, Reply.isBlocked, Reply.isError]

/-- A wait is counted as it is answered. -/
theorem countBlocked_eq (t : Tally) :
    { t with blocked := t.blocked + 1 } = t + count [] [.ok .wouldBlock] := by
  simp [Tally.add_def, count, Reply.isBlocked, Reply.isError]

/-- An error is counted as it is answered. -/
theorem countError_eq (e : StreamError) (t : Tally) :
    countError t = t + count [] [.error e] := by
  simp [countError, Tally.add_def, count, Reply.isBlocked, Reply.isError]

/-! ## What is conserved -/

/-- A stretch of calls takes a decoder and a stream to others, hands out bytes and gives answers.
It conserves bytes if those handed out are missing in front of the stream, if the frames among what
was buffered and what was handed out are those of the samples, and if the rest of it is buffered.
It counts what it does. -/
structure Conserves (d : Decoder) (s : Source) (handed : List UInt8) (rs : List Reply)
    (d' : Decoder) (s' : Source) : Prop where
  bytes_eq : s.bytes = handed ++ s'.bytes
  blocks_eq : s.blocks = rs.countP Reply.isBlocked + s'.blocks
  samples_eq : (frames (d.buffered ++ handed)).map decode = (samples rs).map .ok
  buffered_eq : d'.buffered = remainder (d.buffered ++ handed)
  tally_eq : d'.tally = d.tally.map (· + count handed rs)
  malformed_not_mem : ∀ e, .error (.malformed e) ∉ rs

/-- Bytes that do not complete a frame are conserved in the buffer, if nothing else happens to
the stream. -/
theorem conserves_of_short {d d' : Decoder} {s s' : Source} {handed : List UInt8}
    {rs : List Reply} (hbytes : s.bytes = handed ++ s'.bytes)
    (hblocks : s.blocks = rs.countP Reply.isBlocked + s'.blocks)
    (hbuffered : d'.buffered = d.buffered ++ handed) (hsamples : samples rs = [])
    (htally : d'.tally = d.tally.map (· + count handed rs))
    (hrs : ∀ e, .error (.malformed e) ∉ rs) : Conserves d s handed rs d' s' where
  bytes_eq := hbytes
  blocks_eq := hblocks
  samples_eq := by
    rw [hsamples, frames_of_length_lt (by rw [← hbuffered]; exact d'.buffered_lt)]
    rfl
  buffered_eq := by
    rw [remainder_of_length_lt (by rw [← hbuffered]; exact d'.buffered_lt), hbuffered]
  tally_eq := htally
  malformed_not_mem := hrs

/-- Doing nothing conserves bytes. -/
theorem Conserves.refl (d : Decoder) (s : Source) : Conserves d s [] [] d s :=
  conserves_of_short rfl (by simp) (by simp) rfl
    (by cases d.tally <;> simp [Tally.add_zero]) (by simp)

/-- Stretches that conserve bytes do so one after the other. -/
theorem Conserves.trans {d d' d'' : Decoder} {s s' s'' : Source} {h h' : List UInt8}
    {rs rs' : List Reply} (c : Conserves d s h rs d' s') (c' : Conserves d' s' h' rs' d'' s'') :
    Conserves d s (h ++ h') (rs ++ rs') d'' s'' where
  bytes_eq := by rw [c.bytes_eq, c'.bytes_eq, List.append_assoc]
  blocks_eq := by rw [c.blocks_eq, c'.blocks_eq, List.countP_append, Nat.add_assoc]
  samples_eq := by
    rw [← List.append_assoc, frames_append, ← c.buffered_eq, List.map_append, c.samples_eq,
      c'.samples_eq, ← List.map_append, samples_append]
  buffered_eq := by
    rw [← List.append_assoc, remainder_append, ← c.buffered_eq, c'.buffered_eq]
  tally_eq := by
    rw [c'.tally_eq, c.tally_eq, count_append, Option.map_map]
    congr 1
    funext t
    exact Tally.add_assoc t _ _
  malformed_not_mem := by
    intro e he
    rcases List.mem_append.mp he with he | he
    · exact c.malformed_not_mem e he
    · exact c'.malformed_not_mem e he

/-- What comes later in the stream does not matter. -/
theorem Conserves.append {d d' : Decoder} {s s' : Source} {h : List UInt8} {rs : List Reply}
    (c : Conserves d s h rs d' s') (t : Source) : Conserves d (s ++ t) h rs d' (s' ++ t) where
  bytes_eq := by rw [Source.bytes_append, Source.bytes_append, c.bytes_eq, List.append_assoc]
  blocks_eq := by
    rw [Source.blocks_append, Source.blocks_append, c.blocks_eq, Nat.add_assoc]
  samples_eq := c.samples_eq
  buffered_eq := c.buffered_eq
  tally_eq := c.tally_eq
  malformed_not_mem := c.malformed_not_mem

/-! ## One call -/

/-- What does not fit is there for the next read. -/
theorem leftover_append (front back : List UInt8) (s : Source) :
    leftover (front ++ back) front.length s = leftover back 0 s := by
  rw [leftover, leftover, List.drop_left, List.drop_zero]

/-- What does not fit stands before the rest of the stream. -/
theorem leftover_zero_append (bs : List UInt8) (s t : Source) :
    leftover bs 0 (s ++ t) = leftover bs 0 s ++ t := by
  cases bs <;> rfl

/-- What does not fit is not lost. -/
theorem bytes_leftover_zero (bs : List UInt8) (s : Source) :
    Source.bytes (leftover bs 0 s) = bs ++ Source.bytes s := by
  cases bs <;> rfl

/-- What does not fit is nothing to wait for. -/
theorem blocks_leftover_zero (bs : List UInt8) (s : Source) :
    Source.blocks (leftover bs 0 s) = Source.blocks s := by
  cases bs with
  | nil => rfl
  | cons b bs => simp [leftover, Source.blocks]

/-- What does not fit keeps a stream going on. -/
theorem live_leftover_zero (bs : List UInt8) {s : Source} (hs : Source.Live s) :
    Source.Live (leftover bs 0 s) := by
  cases bs with
  | nil => exact hs
  | cons b bs => exact Source.live_cons.mpr ⟨rfl, hs⟩

/-- A call reads past bytes that do not complete a frame. -/
theorem next_data_of_short (d : Decoder) {bs : List UInt8} (s : Source) (hbs : bs ≠ [])
    (h : (d.buffered ++ bs).length < frameSize) :
    d.next (.data bs :: s)
      = next ⟨d.buffered ++ bs, d.tally.map (countBytes bs.length), h⟩ s := by
  obtain ⟨b, bs, rfl⟩ := List.exists_cons_of_ne_nil hbs
  rw [List.length_append] at h
  have htake : (b :: bs).take (frameSize - d.buffered.length) = b :: bs :=
    List.take_of_length_le (by omega)
  rw [next]
  simp only [htake]
  rw [dif_pos (by omega)]

/-- A call ends with the bytes that complete a frame. -/
theorem next_data_of_full (d : Decoder) {front : List UInt8} (back : List UInt8) (s : Source)
    (h : (d.buffered ++ front).length = frameSize) :
    d.next (.data (front ++ back) :: s)
      = complete (d.counted (countBytes front.length)) (d.buffered ++ front)
          (leftover back 0 s) := by
  have hlt := d.buffered_lt
  rw [List.length_append] at h
  have hroom : frameSize - d.buffered.length = front.length := by omega
  obtain ⟨b, bs, hb⟩ := List.exists_cons_of_ne_nil
    (show front ++ back ≠ [] by
      intro hnil
      rw [(List.append_eq_nil_iff.mp hnil).1, List.length_nil] at h
      omega)
  rw [hb, next]
  simp only [← hb, hroom, List.take_left, lt_irrefl, dite_false, leftover_append]

/-- A call reads past an interruption. -/
theorem conserves_interrupted (d : Decoder) (s : Source) :
    Conserves d (.interrupted :: s) [] [] d s := by
  apply conserves_of_short
  · rfl
  · simp [Source.blocks]
  · rw [List.append_nil]
  · rfl
  · simp [Tally.add_zero]
  · exact fun e => List.not_mem_nil

/-- A call that has to wait keeps what it read. -/
theorem conserves_wouldBlock (d : Decoder) (s : Source) :
    Conserves d (.wouldBlock :: s) [] [.ok .wouldBlock]
      (d.counted fun t => { t with blocked := t.blocked + 1 }) s := by
  apply conserves_of_short
  · rfl
  · simp [Source.blocks, Reply.isBlocked, Nat.add_comm]
  · exact (List.append_nil _).symm
  · rfl
  · simp only [counted, countBlocked_eq]
  · simp

/-- Bytes that do not complete a frame are buffered. -/
theorem conserves_data (d : Decoder) (bs : List UInt8) (s : Source)
    (h : (d.buffered ++ bs).length < frameSize) :
    Conserves d (.data bs :: s) bs []
      ⟨d.buffered ++ bs, d.tally.map (countBytes bs.length), h⟩ s := by
  apply conserves_of_short
  · rfl
  · simp [Source.blocks]
  · rfl
  · rfl
  · rw [← funext (countBytes_eq bs)]
  · exact fun e => List.not_mem_nil

/-- The bytes that complete a frame are answered by its sample, and nothing is buffered. -/
theorem exists_next_data_of_full (d : Decoder) {front : List UInt8} (back : List UInt8)
    (h : (d.buffered ++ front).length = frameSize) :
    ∃ x d', (∀ s, d.next (.data (front ++ back) :: s)
        = ⟨.ok (.sample x), d', leftover back 0 s⟩) ∧
      ∀ s, Conserves d (.data (front ++ back) :: s) front [.ok (.sample x)] d'
        (leftover back 0 s) := by
  obtain ⟨x, hx⟩ := exists_decode_eq_ok (d.buffered ++ front) h.ge
  obtain ⟨hframes, hleft⟩ := frames_of_length_eq h
  refine ⟨x, _, fun s => by rw [next_data_of_full d back s h, complete, hx], fun s => ?_⟩
  constructor
  · rw [bytes_leftover_zero, ← List.append_assoc]
    rfl
  · rw [blocks_leftover_zero]
    simp [Source.blocks, Reply.isBlocked]
  · rw [hframes, List.map_singleton, hx]
    rfl
  · rw [hleft]
    rfl
  · -- The bytes are counted before the frame is.
    simp only [counted, emptied, Option.map_map]
    congr 1
    funext t
    show ({ countBytes front.length t with frames := _ } : Tally) = _
    rw [countFrame_eq x, countBytes_eq, Tally.add_assoc, ← count_append, List.append_nil,
      List.nil_append]
  · simp

/-- What a call on a stream can come to if the stream goes on with the events `pieces` before
anything else: either it is answered in front of the others, or it reads past all of them. -/
inductive Called (d : Decoder) (pieces tail : Source) (a : Answer) : Prop
  | answered (handed : List UInt8) (left : Source) (o : Outcome) (ho : o ≠ .ended)
      (hleft : left.Live) (hresult : a.result = .ok o) (hrest : a.rest = left ++ tail)
      (conserves : Conserves d pieces handed [.ok o] a.decoder left)
  | past (handed : List UInt8) (d' : Decoder) (ha : a = d'.next tail)
      (conserves : Conserves d pieces handed [] d' [])

/-- Reading past an event first changes nothing about how a call ends. -/
theorem Called.cons {d d' : Decoder} {e : Event} {bs : List UInt8} {pieces tail : Source}
    {a : Answer} (c : Conserves d (e :: pieces) bs [] d' pieces) (h : Called d' pieces tail a) :
    Called d (e :: pieces) tail a := by
  cases h with
  | answered handed left o ho hleft hresult hrest conserves =>
      exact .answered _ left o ho hleft hresult hrest (c.trans conserves)
  | past handed d'' ha conserves => exact .past _ d'' ha (c.trans conserves)

/-- **A call either is answered in front of the next end or failure, or reads up to it.** -/
theorem called_next (d : Decoder) (pieces tail : Source) (h : pieces.Live) :
    Called d pieces tail (d.next (pieces ++ tail)) := by
  induction pieces generalizing d with
  | nil => exact .past [] d rfl (.refl d [])
  | cons e pieces ih =>
      obtain ⟨he, hpieces⟩ := Source.live_cons.mp h
      rw [List.cons_append]
      cases e with
      | ended => cases he
      | failed text => cases he
      | interrupted =>
          rw [next]
          exact .cons (conserves_interrupted d pieces) (ih d hpieces)
      | wouldBlock =>
          rw [next]
          exact .answered [] pieces .wouldBlock nofun hpieces rfl rfl
            (conserves_wouldBlock d pieces)
      | data bs =>
          -- Either the bytes are read past, or the frame ends at some place among them.
          by_cases hlen : (d.buffered ++ bs).length < frameSize
          · rw [next_data_of_short d _ (by simpa [Event.goesOn] using he) hlen]
            exact .cons (conserves_data d bs pieces hlen) (ih _ hpieces)
          · have hlt := d.buffered_lt
            rw [List.length_append] at hlen
            obtain ⟨front, back, rfl, hfront⟩ : ∃ front back, bs = front ++ back ∧
                (d.buffered ++ front).length = frameSize := by
              refine ⟨_, _, (List.take_append_drop (frameSize - d.buffered.length) bs).symm, ?_⟩
              rw [List.length_append, List.length_take]
              omega
            obtain ⟨x, d', hnext, hcons⟩ := exists_next_data_of_full d back hfront
            rw [hnext]
            exact .answered front _ (.sample x) nofun (live_leftover_zero back hpieces) rfl
              (leftover_zero_append back pieces tail) (hcons pieces)

/-- At the end of a stream nothing is read. -/
@[simp] theorem rest_atEnd (d : Decoder) (s : Source) : (d.atEnd s).rest = s := by
  unfold atEnd
  split <;> rfl

/-- At the end of a stream nothing is handed out, and a partial frame stays buffered. -/
theorem conserves_atEnd (d : Decoder) {s s' : Source} (hbytes : s.bytes = s'.bytes)
    (hblocks : s.blocks = s'.blocks) :
    Conserves d s [] [(d.atEnd s').result] (d.atEnd s').decoder (d.atEnd s').rest := by
  rw [rest_atEnd]
  by_cases hempty : d.buffered.isEmpty
  · rw [atEnd, if_pos hempty]
    apply conserves_of_short
    · exact hbytes
    · simp [hblocks, Reply.isBlocked]
    · rw [List.append_nil]
    · rfl
    · have hcount : count [] [.ok .ended] = {} := rfl
      simp [hcount, Tally.add_zero]
    · simp
  · rw [atEnd, if_neg hempty]
    apply conserves_of_short
    · exact hbytes
    · simp [hblocks, Reply.isBlocked]
    · exact (List.append_nil _).symm
    · rfl
    · rw [← funext (countError_eq _)]
      rfl
    · simp

/-- A failed read hands out nothing, and a partial frame stays buffered. -/
theorem conserves_failed (d : Decoder) (text : String) {s s' : Source} (hbytes : s.bytes = s'.bytes)
    (hblocks : s.blocks = s'.blocks) :
    Conserves d s [] [.error (.io text)] (d.counted countError) s' := by
  apply conserves_of_short
  · exact hbytes
  · simp [hblocks, Reply.isBlocked]
  · exact (List.append_nil _).symm
  · rfl
  · rw [← funext (countError_eq _)]
    rfl
  · simp

/-- A call at an end or a failure is answered at once. -/
theorem next_close (d : Decoder) (s : Source) :
    d.next s.close = match s.close.failure? with
      | some text => ⟨.error (.io text), d.counted countError, s.close.tail⟩
      | none => d.atEnd s.close.tail := by
  rcases s.close_cases with hclose | ⟨e, rest, hclose, he⟩
  · rw [hclose, next]
    rfl
  · rw [hclose]
    cases e with
    | ended =>
        rw [next]
        rfl
    | failed text =>
        rw [next]
        rfl
    | wouldBlock => cases he
    | interrupted => cases he
    | data bs =>
        -- Data that does not go on is empty, and an empty read is an end.
        obtain rfl : bs = [] := by simpa [Event.goesOn] using he
        rw [next]
        rfl

/-- A call at an end or a failure conserves bytes. -/
theorem conserves_next_close (d : Decoder) (s : Source) :
    Conserves d s.close [] [(d.next s.close).result] (d.next s.close).decoder
      (d.next s.close).rest := by
  rw [next_close]
  cases s.close.failure? with
  | none => exact conserves_atEnd d s.bytes_tail_close.symm s.blocks_tail_close.symm
  | some text => exact conserves_failed d text s.bytes_tail_close.symm s.blocks_tail_close.symm

/-- **A call conserves bytes**, whatever the stream answers. -/
theorem exists_conserves_next (d : Decoder) (s : Source) :
    ∃ handed, Conserves d s handed [(d.next s).result] (d.next s).decoder (d.next s).rest := by
  -- The stream is cut in front of its first end or failure: no call reads past that.
  have hs := s.live_append_close
  have hcalled := called_next d s.live s.close s.live_live
  rw [hs] at hcalled
  cases hcalled with
  | answered handed left o ho hleft hresult hrest conserves =>
      have h := conserves.append s.close
      rw [hs, ← hrest, ← hresult] at h
      exact ⟨handed, h⟩
  | past handed d' ha conserves =>
      have h := (conserves.append s.close).trans (conserves_next_close d' s)
      rw [hs, ← ha] at h
      exact ⟨_, h⟩

end Decoder

end RideHud.Wire
