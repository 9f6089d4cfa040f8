import RideHud.Proofs.Wire.Call

/-!
# Runs of a decoder

Calls in a row, whatever they are answered. A run conserves bytes as its calls do; and up to where a
stream first ends or fails, a run is answered by the samples and waits of a `Passage`, after which
all calls answer alike. Both together say that decoding neither loses bytes nor depends on how they
arrive.
-/

namespace RideHud.Wire.Decoder

/-! ## Runs -/

/-- What some calls in a row answer, and what they leave. -/
structure Run where
  replies : List Reply
  decoder : Decoder
  rest : Source

/-- Call a decoder `n` times, whatever it answers. -/
def calls : ℕ → Decoder → Source → Run
  | 0, d, s => ⟨[], d, s⟩
  | n + 1, d, s =>
    let r := calls n (d.next s).decoder (d.next s).rest
    { r with replies := (d.next s).result :: r.replies }

/-- **Calls in a row conserve bytes**, whatever the stream answers in between. -/
theorem exists_conserves_calls (n : ℕ) (d : Decoder) (s : Source) :
    ∃ handed, Conserves d s handed (d.calls n s).replies (d.calls n s).decoder
      (d.calls n s).rest := by
  induction n generalizing d s with
  | zero => exact ⟨[], .refl d s⟩
  | succ n ih =>
      obtain ⟨h, hnext⟩ := exists_conserves_next d s
      obtain ⟨h', hcalls⟩ := ih (d.next s).decoder (d.next s).rest
      exact ⟨h ++ h', hnext.trans hcalls⟩

/-- What conserving bytes comes to if nothing was buffered before. -/
theorem Conserves.of_fresh {counting : Bool} {s s' : Source} {handed : List UInt8}
    {rs : List Reply} {d : Decoder} (c : Conserves (fresh counting) s handed rs d s') :
    (frames handed).map decode = (samples rs).map .ok ∧ d.buffered = remainder handed ∧
      (samples rs).length = handed.length / frameSize :=
  ⟨c.samples_eq, c.buffered_eq, length_eq_of_map_decode_frames c.samples_eq⟩

/-- **A decoder accounts for every byte.** After any number of calls, whatever the stream answers
and whatever was answered before: less than a frame is buffered; the bytes handed out make up a
frame for each sample and the buffer, which holds the last of them, and the samples are those of
the frames; the counts are, modulo `2 ^ 64`, those of samples, bytes, waits and errors; and no call
finds a frame malformed. -/
theorem calls_conserve_bytes (n : ℕ) (s : Source) :
    let run := (fresh true).calls n s
    run.decoder.buffered.length < frameSize ∧
    (∃ handed, s.bytes = handed ++ run.rest.bytes ∧
      handed.length = frameSize * (samples run.replies).length + run.decoder.buffered.length ∧
      run.decoder.buffered <:+ handed ∧
      (frames handed).map decode = (samples run.replies).map .ok ∧
      run.decoder.tally = some
        { frames := (samples run.replies).length.toUInt64
          bytes := handed.length.toUInt64
          blocked := (run.replies.countP Reply.isBlocked).toUInt64
          errors := (run.replies.countP Reply.isError).toUInt64 }) ∧
    ∀ e, .error (.malformed e) ∉ run.replies := by
  intro run
  obtain ⟨handed, c⟩ := exists_conserves_calls n (fresh true) s
  obtain ⟨hsamples, hbuffered, hlen⟩ := c.of_fresh
  refine ⟨run.decoder.buffered_lt, ⟨handed, c.bytes_eq, ?_, ?_, hsamples, ?_⟩,
    c.malformed_not_mem⟩
  · rw [hlen, hbuffered, length_remainder, Nat.div_add_mod]
  · rw [hbuffered]
    exact List.drop_suffix _ handed
  · rw [c.tally_eq]
    exact congrArg some (Tally.zero_add _)

/-! ## Calls up to the next end or failure -/

/-- Calls on a stream that goes on with the events `pieces` before those of `tail` are answered by
`rs`, until a call would read past all that is left of them. Then it is as if the decoder `d'` was
called with `tail`. -/
inductive Passage (tail : Source) : Decoder → Source → List Reply → Decoder → Prop
  | past {d d' : Decoder} {pieces : Source} (hnext : d.next (pieces ++ tail) = d'.next tail) :
      Passage tail d pieces [] d'
  | answered {d d' : Decoder} {pieces left : Source} {o : Outcome} {rs : List Reply}
      (ho : o ≠ .ended) (hresult : (d.next (pieces ++ tail)).result = .ok o)
      (hrest : (d.next (pieces ++ tail)).rest = left ++ tail)
      (h : Passage tail (d.next (pieces ++ tail)).decoder left rs d') :
      Passage tail d pieces (.ok o :: rs) d'

/-- **Every stream is passed up to its next end or failure**, and the calls conserve bytes. -/
theorem exists_passage (tail : Source) (d : Decoder) (pieces : Source) (h : pieces.Live) :
    ∃ rs d', Passage tail d pieces rs d' ∧ Conserves d pieces pieces.bytes rs d' [] := by
  -- A piece that is cut inside goes back to the stream, so the induction is on its size.
  induction hsize : Source.size pieces using Nat.strong_induction_on generalizing d pieces with
  | _ n ih =>
      cases called_next d pieces tail h with
      | answered handed left o ho hleft hresult hrest conserves =>
          -- An answer uses up some of the stream, so fewer events are left to pass.
          have hlt := size_rest_next_lt d (pieces ++ tail) o hresult ho
          rw [hrest, Source.size_append, Source.size_append] at hlt
          obtain ⟨rs, d', hpassage, hcons⟩ := ih left.size (by omega) _ left hleft rfl
          refine ⟨.ok o :: rs, d', .answered ho hresult hrest hpassage, ?_⟩
          rw [conserves.bytes_eq]
          exact conserves.trans hcons
      | past handed d' ha conserves =>
          refine ⟨[], d', .past ha, ?_⟩
          rw [conserves.bytes_eq, Source.bytes_nil, List.append_nil]
          exact conserves

namespace Passage

variable {tail pieces : Source} {d d' : Decoder} {rs : List Reply}

/-- The answers on the way are waits and samples. -/
theorem filter_replies (h : Passage tail d pieces rs d') :
    rs.filter (fun r => !Reply.isBlocked r) = (samples rs).map fun x => .ok (.sample x) := by
  induction h with
  | past => rfl
  | @answered _ _ _ _ o _ ho _ _ _ ih =>
      cases o with
      | sample x =>
          rw [samples_cons_sample, List.map_cons, ← ih]
          rfl
      | wouldBlock =>
          rw [samples_cons_wouldBlock, ← ih]
          rfl
      | ended => exact absurd rfl ho

/-- No error is on the way. -/
theorem countP_isError (h : Passage tail d pieces rs d') : rs.countP Reply.isError = 0 := by
  induction h with
  | past => rfl
  | answered _ _ _ _ ih => rw [List.countP_cons_of_neg Bool.false_ne_true, ih]

/-- The answers on the way are told apart by being waits. -/
theorem length_eq (h : Passage tail d pieces rs d') :
    rs.length = rs.countP Reply.isBlocked + (samples rs).length := by
  have hfilter := congrArg List.length h.filter_replies
  rw [List.length_map, ← List.countP_eq_length_filter] at hfilter
  have hcount := List.length_eq_countP_add_countP Reply.isBlocked (l := rs)
  simp only [Bool.not_eq_true, Bool.decide_eq_false] at hcount
  omega

/-- Calls in a row go on after a passage. -/
theorem replies_calls (h : Passage tail d pieces rs d') (n : ℕ) :
    (d.calls (rs.length + n) (pieces ++ tail)).replies = rs ++ (d'.calls n tail).replies := by
  induction h with
  | past hnext =>
      -- The decoders differ, but the first call on either comes to the same.
      cases n with
      | zero => rfl
      | succ n =>
          rw [List.length_nil, Nat.zero_add, calls, calls, hnext]
          rfl
  | answered ho hresult hrest h ih =>
      rw [List.length_cons, Nat.add_right_comm, calls, hrest, hresult, ih]
      rfl

end Passage

/-! ## Streams that are at their end -/

/-- What a call answers at the end of a stream that delivered some bytes. -/
def closing (bs : List UInt8) : Reply :=
  if bs.length % frameSize = 0 then .ok .ended else .error (.truncated (bs.length % frameSize))

/-- At the end of a stream the buffer decides, and it is kept. -/
theorem atEnd_eq (d : Decoder) (s : Source) :
    (d.atEnd s).result = closing d.buffered ∧ (d.atEnd s).decoder.buffered = d.buffered := by
  have hmod : d.buffered.length % frameSize = d.buffered.length := Nat.mod_eq_of_lt d.buffered_lt
  rw [closing, hmod, atEnd]
  by_cases hempty : d.buffered = []
  · rw [if_pos (by rw [hempty]; rfl), if_pos (by rw [hempty]; rfl)]
    exact ⟨rfl, rfl⟩
  · rw [if_neg (by simpa using hempty), if_neg (by simpa using hempty)]
    exact ⟨rfl, rfl⟩

/-- A stream at its end answers the same to every call. -/
theorem replies_calls_ended (d : Decoder) (k n : ℕ) :
    (d.calls n (List.replicate k .ended)).replies = List.replicate n (closing d.buffered) := by
  induction n generalizing d k with
  | zero => rfl
  | succ n ih =>
      obtain ⟨k', hnext⟩ : ∃ k', d.next (List.replicate k .ended)
          = d.atEnd (List.replicate k' .ended) := by
        cases k with
        | zero => exact ⟨0, by rw [List.replicate_zero, next]⟩
        | succ k => exact ⟨k, by rw [List.replicate_succ, next]⟩
      obtain ⟨hresult, hbuffered⟩ := atEnd_eq d (List.replicate k' .ended)
      rw [calls, hnext, hresult, rest_atEnd, ih, hbuffered]
      rfl

/-- Whole frames do not matter at the end of a stream. -/
theorem closing_remainder (bs : List UInt8) : closing (remainder bs) = closing bs := by
  rw [closing, closing, length_remainder, Nat.mod_mod]

/-- The end of a stream is nothing to wait for. -/
theorem isBlocked_closing (bs : List UInt8) : Reply.isBlocked (closing bs) = false := by
  unfold closing
  split <;> rfl

/-- **Decoding does not depend on how bytes arrive.** For all bytes there are samples, one for each
whole frame and decoded from it, that any stream which delivers these bytes in any pieces, blocks
and is interrupted in between and then is at its end makes every decoder answer one after the
other, with nothing but waits in between; all later calls are answered by the end of the stream or
the number of bytes that are left. After each call, what is buffered and what the stream still has
to hand out are the bytes behind the frames of the samples so far. -/
theorem replies_independent_of_delivery (bs : List UInt8) :
    ∃ xs : List RawSample, xs.length = bs.length / frameSize ∧
      (frames bs).map decode = xs.map .ok ∧
      ∀ (counting : Bool) (pieces : Source) (k : ℕ), pieces.Live → pieces.bytes = bs →
        let d := fresh counting
        let s := pieces ++ List.replicate k .ended
        (∀ n, (d.calls (pieces.blocks + xs.length + n) s).replies.filter
            (fun r => !Reply.isBlocked r)
          = xs.map (fun x => .ok (.sample x)) ++ List.replicate n (closing bs)) ∧
        ∀ n, (d.calls n s).decoder.buffered ++ (d.calls n s).rest.bytes
          = bs.drop (frameSize * (samples (d.calls n s).replies).length) := by
  obtain ⟨xs, hxs⟩ := exists_map_decode_frames bs
  refine ⟨xs, length_eq_of_map_decode_frames hxs, hxs, fun counting pieces k hlive hbytes => ?_⟩
  intro d s
  refine ⟨fun n => ?_, fun n => ?_⟩
  · obtain ⟨rs, d', hpassage, hcons⟩ := exists_passage (List.replicate k .ended) d pieces hlive
    rw [hbytes] at hcons
    obtain ⟨hsamples, hbuffered, -⟩ := hcons.of_fresh
    have hrs : samples rs = xs :=
      List.map_injective_iff.mpr (fun _ _ => Except.ok.inj) (hsamples.symm.trans hxs)
    -- The calls up to the end are one for each wait and one for each sample.
    have hcount : pieces.blocks + xs.length = rs.length := by
      rw [hcons.blocks_eq, hpassage.length_eq, hrs, Source.blocks_nil, Nat.add_zero]
    rw [hcount, hpassage.replies_calls, replies_calls_ended, List.filter_append,
      hpassage.filter_replies, hrs, hbuffered, closing_remainder,
      List.filter_replicate_of_pos (by simp [isBlocked_closing])]
  · -- What was handed out is the frames of the samples so far and what is buffered.
    obtain ⟨handed, c⟩ := exists_conserves_calls n d s
    obtain ⟨-, hbuffered, hcount⟩ := c.of_fresh
    have hs : Source.bytes s = bs := by
      rw [Source.bytes_append, Source.bytes_replicate_ended, List.append_nil, hbytes]
    rw [← hs, c.bytes_eq, hbuffered, hcount, remainder, List.drop_append_of_le_length]
    exact Nat.mul_div_le _ _

/-- A frame and four bytes more, in pieces that are not cut where the frame is. -/
def cutPieces : Source :=
  [.data (List.replicate 10 1), .wouldBlock, .data (List.replicate 100 1), .interrupted,
    .data (List.replicate 30 1)]

theorem live_cutPieces : cutPieces.Live := by decide

theorem bytes_cutPieces : cutPieces.bytes = List.replicate 140 1 := by decide

/-- The frame is found, and after it four bytes are left for good. -/
theorem replies_cutPieces :
    cutPieces.Live ∧ cutPieces.bytes = List.replicate 140 1 ∧
      ∃ xs : List RawSample, xs.length = 1 ∧ ∀ n,
        (((fresh true).calls (2 + n) (cutPieces ++ [.ended])).replies.filter
          fun r => !Reply.isBlocked r)
          = xs.map (fun x => .ok (.sample x)) ++ List.replicate n (.error (.truncated 4)) := by
  obtain ⟨xs, hlen, -, hxs⟩ := replies_independent_of_delivery (List.replicate 140 1)
  have hone : xs.length = 1 := by
    rw [hlen, List.length_replicate]
    rfl
  have hblocks : cutPieces.blocks = 1 := by decide
  have hclosing : closing (List.replicate 140 1) = .error (.truncated 4) := by
    rw [closing, List.length_replicate]
    rfl
  refine ⟨live_cutPieces, bytes_cutPieces, xs, hone, fun n => ?_⟩
  have h := (hxs true cutPieces 1 live_cutPieces bytes_cutPieces).1 n
  rwa [hblocks, hone, hclosing] at h

end RideHud.Wire.Decoder
