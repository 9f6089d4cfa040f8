import RideHud.Proofs.Wire.Run
import RideHud.Wire.Load

/-!
# Loading

Loading calls a decoder until the stream ends or something fails. Up to where the stream first ends
or fails it follows a `Passage`, so the outcome only depends on the bytes that were delivered by
then, on how the stream stopped, and on the first wait that failed.
-/

namespace RideHud.Wire

open Decoder

/-! ## One step of loading -/

section

variable {waiting : Waiting} {waits : ℕ} {loaded : List RawSample} {d d' : Decoder} {s s' : Source}

/-- A sample is kept. -/
theorem loadFrom_of_sample {x : RawSample} (h : (d.next s).result = .ok (.sample x)) :
    loadFrom waiting waits loaded d s
      = loadFrom waiting waits (x :: loaded) (d.next s).decoder (d.next s).rest := by
  rw [loadFrom]
  split <;> simp_all

/-- A wait that ends well is counted. -/
theorem loadFrom_of_wait (h : (d.next s).result = .ok .wouldBlock)
    (hwait : waiting (waits + 1) = none) :
    loadFrom waiting waits loaded d s
      = loadFrom waiting (waits + 1) loaded (d.next s).decoder (d.next s).rest := by
  rw [loadFrom]
  split <;> simp_all

/-- A wait that fails gives up. -/
theorem loadFrom_of_failed_wait {text : String} (h : (d.next s).result = .ok .wouldBlock)
    (hwait : waiting (waits + 1) = some text) :
    loadFrom waiting waits loaded d s
      = ⟨.error (.io text), waits + 1, (d.next s).decoder.tally, (d.next s).rest⟩ := by
  rw [loadFrom]
  split <;> simp_all

/-- The end of the stream ends loading. -/
theorem loadFrom_of_ended (h : (d.next s).result = .ok .ended) :
    loadFrom waiting waits loaded d s
      = ⟨.ok loaded.reverse, waits, (d.next s).decoder.tally, (d.next s).rest⟩ := by
  rw [loadFrom]
  split <;> simp_all

/-- An error gives up. -/
theorem loadFrom_of_error {e : StreamError} (h : (d.next s).result = .error e) :
    loadFrom waiting waits loaded d s
      = ⟨.error e, waits, (d.next s).decoder.tally, (d.next s).rest⟩ := by
  rw [loadFrom]
  split <;> simp_all

/-- Loading depends on what the next call comes to. -/
theorem loadFrom_congr (h : d.next s = d'.next s') :
    loadFrom waiting waits loaded d s = loadFrom waiting waits loaded d' s' := by
  have hresult := congrArg Answer.result h
  cases hr : (d.next s).result with
  | error e =>
      rw [hr] at hresult
      rw [loadFrom_of_error hr, loadFrom_of_error hresult.symm, h]
  | ok o =>
      rw [hr] at hresult
      cases o with
      | sample x => rw [loadFrom_of_sample hr, loadFrom_of_sample hresult.symm, h]
      | ended => rw [loadFrom_of_ended hr, loadFrom_of_ended hresult.symm, h]
      | wouldBlock =>
          cases hwait : waiting (waits + 1) with
          | none => rw [loadFrom_of_wait hr hwait, loadFrom_of_wait hresult.symm hwait, h]
          | some text =>
              rw [loadFrom_of_failed_wait hr hwait, loadFrom_of_failed_wait hresult.symm hwait, h]

end

/-! ## Loading up to the next end or failure -/

/-- A passage whose waits end well is loaded. -/
theorem loadFrom_passage {waiting : Waiting} {tail pieces : Source} {d d' : Decoder}
    {rs : List Reply} (h : Passage tail d pieces rs d') (waits : ℕ) (loaded : List RawSample)
    (hwaits : ∀ n, waits < n → n ≤ waits + rs.countP Reply.isBlocked → waiting n = none) :
    loadFrom waiting waits loaded d (pieces ++ tail)
      = loadFrom waiting (waits + rs.countP Reply.isBlocked) ((samples rs).reverse ++ loaded) d'
          tail := by
  induction h generalizing waits loaded with
  | past hnext => exact loadFrom_congr hnext
  | @answered d _ pieces left o rs ho hresult hrest _ ih =>
      cases o with
      | sample x =>
          rw [loadFrom_of_sample hresult, hrest, ih waits (x :: loaded) hwaits,
            samples_cons_sample, List.reverse_cons, List.append_assoc]
          rfl
      | wouldBlock =>
          -- This wait is the next one, and those behind it are counted from there.
          rw [List.countP_cons_of_pos rfl] at hwaits ⊢
          rw [loadFrom_of_wait hresult (hwaits _ (by omega) (by omega)), hrest,
            ih (waits + 1) loaded fun n hlt hle => hwaits n (by omega) (by omega),
            samples_cons_wouldBlock, Nat.add_assoc, Nat.add_comm 1]
      | ended => exact absurd rfl ho

/-- Loading comes to the next end or failure with a sample for each whole frame, and with what was
counted on the way. -/
theorem exists_load_append (waiting : Waiting) (pieces tail : Source) (xs : List RawSample)
    (hlive : pieces.Live) (hwaits : ∀ n, 0 < n → n ≤ pieces.blocks → waiting n = none)
    (hxs : (frames pieces.bytes).map decode = xs.map .ok) :
    ∃ d : Decoder, d.buffered = remainder pieces.bytes ∧
      d.tally = some ⟨xs.length.toUInt64, pieces.bytes.length.toUInt64, pieces.blocks.toUInt64, 0⟩ ∧
      load waiting (pieces ++ tail) = loadFrom waiting pieces.blocks xs.reverse d tail := by
  obtain ⟨rs, d, hpassage, hcons⟩ := exists_passage tail (.fresh true) pieces hlive
  obtain ⟨hsamples, hbuffered, -⟩ := hcons.of_fresh
  have hblocks : rs.countP Reply.isBlocked = pieces.blocks := hcons.blocks_eq.symm
  have hrs : samples rs = xs :=
    List.map_injective_iff.mpr (fun _ _ => Except.ok.inj) (hsamples.symm.trans hxs)
  refine ⟨d, hbuffered, ?_, ?_⟩
  · rw [hcons.tally_eq, ← hrs, ← hblocks]
    show some (({} : Tally) + count pieces.bytes rs) = _
    rw [Tally.zero_add, count, hpassage.countP_isError]
    rfl
  · rw [load, loadFrom_passage hpassage 0 [] (by simpa [hblocks] using hwaits), hblocks, hrs,
      Nat.zero_add, List.append_nil]

/-- Where a stream first ends or fails, loading is over: with all samples if the stream ended and
nothing was buffered, and otherwise with what stopped it. -/
theorem loadFrom_close (waiting : Waiting) (waits : ℕ) (xs : List RawSample) (d : Decoder)
    (s : Source) :
    loadFrom waiting waits xs.reverse d s.close
      = ⟨match s.close.failure? with
          | some text => .error (.io text)
          | none =>
            if d.buffered.length % frameSize = 0 then .ok xs
            else .error (.truncated (d.buffered.length % frameSize)),
        waits, (d.next s.close).decoder.tally, s.close.tail⟩ := by
  have hnext := next_close d s
  cases hfail : s.close.failure? with
  | some text =>
      rw [hfail] at hnext
      rw [loadFrom_of_error (congrArg Answer.result hnext), hnext]
  | none =>
      rw [hfail] at hnext
      have hresult := congrArg Answer.result hnext
      rw [(atEnd_eq d _).1, closing] at hresult
      have hrest : (d.next s.close).rest = s.close.tail := by rw [hnext, rest_atEnd]
      by_cases hmod : d.buffered.length % frameSize = 0
      · rw [if_pos hmod] at hresult
        rw [loadFrom_of_ended hresult, hrest, List.reverse_reverse]
        simp only [if_pos hmod]
      · rw [if_neg hmod] at hresult
        rw [loadFrom_of_error hresult, hrest]
        simp only [if_neg hmod]

/-- An end or a failure is not counted as a wait. -/
theorem blocked_next_close (d : Decoder) (s : Source) :
    (d.next s.close).decoder.tally.map Tally.blocked = d.tally.map Tally.blocked := by
  have hcons := conserves_next_close d s
  have hrest : (d.next s.close).rest = s.close.tail := by
    rw [next_close]
    cases s.close.failure? with
    | some text => rfl
    | none => exact rest_atEnd d _
  have hblocks := hcons.blocks_eq
  rw [hrest, s.blocks_tail_close] at hblocks
  have hzero : [(d.next s.close).result].countP Reply.isBlocked = 0 := by omega
  rw [hcons.tally_eq, Option.map_map]
  congr 1
  funext t
  show t.blocked + ([(d.next s.close).result].countP Reply.isBlocked).toUInt64 = t.blocked
  rw [hzero]
  exact UInt64.add_zero _

/-- If no wait fails, loading goes on to where the stream first ends or fails. -/
theorem exists_load_eq (waiting : Waiting) (s : Source) (xs : List RawSample)
    (hwaits : ∀ n, 0 < n → n ≤ s.live.blocks → waiting n = none)
    (hxs : (frames s.live.bytes).map decode = xs.map .ok) :
    ∃ d : Decoder,
      d.tally = some ⟨xs.length.toUInt64, s.live.bytes.length.toUInt64,
        s.live.blocks.toUInt64, 0⟩ ∧
      load waiting s
        = ⟨match s.close.failure? with
            | some text => .error (.io text)
            | none =>
              if s.live.bytes.length % frameSize = 0 then .ok xs
              else .error (.truncated (s.live.bytes.length % frameSize)),
          s.live.blocks, (d.next s.close).decoder.tally, s.close.tail⟩ := by
  obtain ⟨d, hbuffered, htally, hload⟩ :=
    exists_load_append waiting s.live s.close xs s.live_live hwaits hxs
  rw [s.live_append_close, loadFrom_close, hbuffered, length_remainder, Nat.mod_mod] at hload
  exact ⟨d, htally, hload⟩

/-- If a wait fails, nothing behind it is read. -/
theorem load_of_failed_wait {waiting : Waiting} {before : Source} {text : String}
    (hlive : before.Live) (hwaits : ∀ n, 0 < n → n < before.blocks + 1 → waiting n = none)
    (hfail : waiting (before.blocks + 1) = some text) (after : Source) :
    load waiting (before ++ .wouldBlock :: after)
      = ⟨.error (.io text), before.blocks + 1,
        some ⟨(before.bytes.length / frameSize).toUInt64, before.bytes.length.toUInt64,
          (before.blocks + 1).toUInt64, 0⟩, after⟩ := by
  -- Up to the block, nothing is different from loading without a failure.
  obtain ⟨xs, hxs⟩ := exists_map_decode_frames before.bytes
  obtain ⟨d, -, htally, hload⟩ := exists_load_append waiting before (.wouldBlock :: after) xs
    hlive (fun n hpos hle => hwaits n hpos (by omega)) hxs
  have hnext : d.next (.wouldBlock :: after)
      = ⟨.ok .wouldBlock, d.counted fun t => { t with blocked := t.blocked + 1 }, after⟩ := by
    rw [next]
  rw [hload, loadFrom_of_failed_wait (congrArg Answer.result hnext) hfail, hnext]
  show Load.mk _ _ (d.tally.map _) _ = _
  rw [htally, length_eq_of_map_decode_frames hxs]
  simp

/-- A stream that blocks `n` times before anything stops it is cut at its `n`-th block. -/
theorem exists_eq_append_wouldBlock {pieces : Source} (hlive : pieces.Live) {n : ℕ} (hpos : 0 < n)
    (hle : n ≤ pieces.blocks) :
    ∃ before after : Source, pieces = before ++ .wouldBlock :: after ∧ before.Live ∧
      before.blocks + 1 = n := by
  induction pieces generalizing n with
  | nil => exact absurd hpos (by rw [Source.blocks_nil] at hle; omega)
  | cons e pieces ih =>
      obtain ⟨he, hpieces⟩ := Source.live_cons.mp hlive
      by_cases hwait : e = .wouldBlock
      · subst hwait
        rw [Source.blocks, List.count_cons_self] at hle
        rcases Nat.eq_or_lt_of_le (show 1 ≤ n from hpos) with rfl | hlt
        · exact ⟨[], pieces, rfl, Source.live_nil, rfl⟩
        · obtain ⟨before, after, rfl, hbefore, hcount⟩ :=
            ih hpieces (n := n - 1) (by omega) (by rw [Source.blocks]; omega)
          refine ⟨.wouldBlock :: before, after, rfl, Source.live_cons.mpr ⟨rfl, hbefore⟩, ?_⟩
          rw [Source.blocks, List.count_cons_self, ← Source.blocks]
          omega
      · rw [Source.blocks, List.count_cons_of_ne hwait] at hle
        obtain ⟨before, after, rfl, hbefore, hcount⟩ := ih hpieces hpos hle
        refine ⟨e :: before, after, rfl, Source.live_cons.mpr ⟨he, hbefore⟩, ?_⟩
        rw [Source.blocks, List.count_cons_of_ne hwait]
        exact hcount

/-! ## The main theorem -/

/-- **Loading depends on the bytes and on how the stream stops.** Take the bytes that a stream
delivers before it first ends or fails.

If no wait fails, the outcome is the failure of the stream, or else the samples of the whole frames
if they leave nothing, or else the number of bytes they leave. There are as many waits as the stream
blocks before it stops, as many are counted, and nothing behind the stop is read.

If the `n`-th wait is the first that fails, that is the outcome, and the stream is read up to where
it blocks for the `n`-th time.

In particular, samples whose frames are delivered one after the other are loaded. -/
theorem load_determined (waiting : Waiting) (s : Source) :
    (∃ xs : List RawSample, xs.length = s.live.bytes.length / frameSize ∧
      (frames s.live.bytes).map decode = xs.map .ok ∧
      ((∀ n, 0 < n → n ≤ s.live.blocks → waiting n = none) →
        (load waiting s).result = (match s.close.failure? with
          | some text => .error (.io text)
          | none =>
            if s.live.bytes.length % frameSize = 0 then .ok xs
            else .error (.truncated (s.live.bytes.length % frameSize))) ∧
        (load waiting s).waits = s.live.blocks ∧
        (load waiting s).tally.map Tally.blocked = some s.live.blocks.toUInt64 ∧
        (load waiting s).rest = s.close.tail)) ∧
    (∀ n text, 0 < n → n ≤ s.live.blocks → (∀ m, 0 < m → m < n → waiting m = none) →
      waiting n = some text →
      ∃ before after : Source, s = before ++ .wouldBlock :: after ∧ before.Live ∧
        before.blocks + 1 = n ∧
        load waiting s = ⟨.error (.io text), n,
          some ⟨(before.bytes.length / frameSize).toUInt64, before.bytes.length.toUInt64,
            n.toUInt64, 0⟩, after⟩) ∧
    (∀ ys : List (RawSample × UInt64), s.live.bytes = (ys.flatMap fun y => encode y.1 y.2) →
      s.close.failure? = none → (∀ n, 0 < n → n ≤ s.live.blocks → waiting n = none) →
      (load waiting s).result = .ok (ys.map Prod.fst)) := by
  refine ⟨?_, ?_, ?_⟩
  · obtain ⟨xs, hxs⟩ := exists_map_decode_frames s.live.bytes
    refine ⟨xs, length_eq_of_map_decode_frames hxs, hxs, fun hwaits => ?_⟩
    obtain ⟨d, htally, hload⟩ := exists_load_eq waiting s xs hwaits hxs
    rw [hload]
    refine ⟨rfl, rfl, ?_, rfl⟩
    rw [blocked_next_close, htally]
    rfl
  · intro n text hpos hle hwaits hfail
    obtain ⟨before, after, hs, hbefore, rfl⟩ := exists_eq_append_wouldBlock s.live_live hpos hle
    have hsplit : s = before ++ .wouldBlock :: (after ++ s.close) := by
      rw [← List.cons_append, ← List.append_assoc, ← hs, s.live_append_close]
    refine ⟨before, after ++ s.close, hsplit, hbefore, rfl, ?_⟩
    have hload := load_of_failed_wait hbefore hwaits hfail (after ++ s.close)
    rwa [← hsplit] at hload
  · intro ys hys hfail hwaits
    have hxs := map_decode_frames_flatMap_encode ys
    rw [← hys] at hxs
    obtain ⟨d, -, hload⟩ := exists_load_eq waiting s (ys.map Prod.fst) hwaits hxs
    rw [hload, hfail, hys, length_flatMap_encode, Nat.mul_mod_right]
    rfl

/-- The first wait fails. -/
def Waiting.impatient : Waiting := fun n => if n = 1 then some "wait failed" else none

/-- A sample whose pressure is not a number. -/
def oddSample : RawSample :=
  ⟨5, ⟨1, 2, 3⟩, ⟨4, 5, 6⟩, ⟨7, 8, 9⟩, 10, 0x7ff8000000000001, ⟨11, 12, 13, 14⟩⟩

/-- A stream that stops inside its second frame is not loaded, nor is one that blocks if the wait
fails. Two frames in one piece are loaded, whatever their spare times. -/
theorem load_cutPieces :
    (∀ n, 0 < n → n ≤ (Source.live (cutPieces ++ [.ended])).blocks → Waiting.patient n = none) ∧
    (load .patient (cutPieces ++ [.ended])).result = .error (.truncated 4) ∧
    (load .patient (cutPieces ++ [.ended])).waits = 1 ∧
    Waiting.impatient 1 = some "wait failed" ∧
    (load .impatient (cutPieces ++ [.ended])).result = .error (.io "wait failed") ∧
    (load .patient [.data (encode oddSample 7 ++ encode oddSample 8)]).result
      = .ok [oddSample, oddSample] := by
  have hpatient : ∀ k n, 0 < n → n ≤ k → Waiting.patient n = none := fun _ _ _ _ => rfl
  have hlive : Source.live (cutPieces ++ [.ended]) = cutPieces := rfl
  have hclose : Source.close (cutPieces ++ [.ended]) = [.ended] := rfl
  obtain ⟨⟨xs, -, -, h⟩, -, -⟩ := load_determined .patient (cutPieces ++ [.ended])
  obtain ⟨hresult, hwaits, -⟩ := h (hpatient _)
  obtain ⟨-, h, -⟩ := load_determined .impatient (cutPieces ++ [.ended])
  obtain ⟨before, after, -, -, -, hfail⟩ := h 1 "wait failed" (by decide) (by decide)
    (fun m hpos hlt => absurd hpos (by omega)) rfl
  obtain ⟨-, -, h⟩ := load_determined .patient [.data (encode oddSample 7 ++ encode oddSample 8)]
  refine ⟨hpatient _, ?_, ?_, rfl, congrArg Load.result hfail, ?_⟩
  · rw [hresult, hlive, hclose, bytes_cutPieces, List.length_replicate]
    rfl
  · rw [hwaits, hlive]
    rfl
  · exact h [(oddSample, 7), (oddSample, 8)] rfl rfl (hpatient _)

end RideHud.Wire
