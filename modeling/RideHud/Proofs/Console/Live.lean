import Mathlib
import RideHud.Console.Live
import RideHud.Proofs.Console.Take
import RideHud.Proofs.Intake.Forward
import RideHud.Proofs.Wire.Load

/-!
# Live samples and recordings

A stream is drawn as it comes in, sample by sample, or loaded as a whole and taken in afterwards. The
first passes over samples that run back in time, and the second gives up at them; apart from that
both show the same samples (`live_agrees_with_batch`).

* `run_eq`: drawing a stream is adding to a film what the intake keeps of it;
* `Film.satisfiesM_addSamples`: what a film shows after samples in order.

Films are made in any surroundings, and what holds of them holds of all that their surroundings may
come to (`SatisfiesM`).
-/

namespace RideHud.Console

open Intake Timeline Wire Decoder

variable {m : Type → Type} [Monad m] [Host m]

/-! ## Films -/

namespace Film

/-- Make a sample current that comes from outside, and a frame of it. -/
def addSample (film : Film) (sample : Sample Float) : m Film :=
  addFrame { film with
    session := film.session.addSample sample
    context := film.context.push sample }

/-- Make frames of some samples, one after the other. -/
def addSamples (film : Film) (samples : List (Sample Float)) : m Film :=
  samples.foldlM addSample film

/-- The film consists of the frames of some samples, in order, and the last one is current. Nothing
is said about how long the frames took, nor about whether they could be drawn. -/
structure Shows (film : Film) (samples : List (Sample Float)) : Prop where
  samples_eq : film.session.samples = samples.length
  frames_eq : film.session.frames = samples.length
  emptyFrames_eq : film.session.emptyFrames = 0
  backward_eq : film.session.backward = 0
  lastTime_eq : film.session.lastTime = samples.getLast?.map Sample.time
  current_eq : film.context.view.current? = samples.getLast?

variable [LawfulMonad m] {film : Film} {samples : List (Sample Float)}

/-- A sample after others that are not later does not count as running back. -/
theorem Shows.backward_addSample (h : film.Shows samples) {s : Sample Float}
    (hordered : Ordered (samples ++ [s])) : (film.session.addSample s).backward = 0 := by
  have hforward : (film.session.lastTime.any fun last => decide (s.time < last)) = false := by
    rw [h.lastTime_eq]
    cases hlast : samples.getLast? with
    | none => rfl
    | some last =>
        have hle := hordered.le_last (List.mem_of_getLast? hlast)
        exact decide_eq_false (UInt64.not_lt.mpr hle)
  show film.session.backward + (if _ = true then 1 else 0) = 0
  rw [hforward, h.backward_eq]
  rfl

/-- **One more sample makes one more frame**, and is current then. -/
theorem satisfiesM_addSample (h : film.Shows samples) {s : Sample Float}
    (hordered : Ordered (samples ++ [s])) :
    SatisfiesM (fun film => film.Shows (samples ++ [s])) (film.addSample s : m Film) := by
  unfold addSample addFrame
  refine .bind .trivial fun started _ => .bind (satisfiesM_shoot _) fun ⟨outcome, shot⟩ hshot => ?_
  obtain ⟨houtcome, hsession, hview⟩ := hshot
  -- The outcome and the time that it took are up to the surroundings, and are not looked at.
  refine .bind .trivial fun stopped _ => .pure ?_
  have hlast : (samples ++ [s]).getLast? = some s := List.getLast?_concat
  dsimp only at hsession hview
  constructor
  · show shot.session.samples = _
    rw [hsession, List.length_append]
    exact congrArg (· + 1) h.samples_eq
  · show shot.session.frames + 1 = _
    rw [hsession, List.length_append]
    exact congrArg (· + 1) h.frames_eq
  · show shot.session.emptyFrames + (if outcome = .empty then 1 else 0) = 0
    rw [hsession, if_neg (houtcome rfl)]
    exact h.emptyFrames_eq
  · show shot.session.backward = 0
    rw [hsession]
    exact h.backward_addSample hordered
  · show shot.session.lastTime = _
    rw [hsession, hlast]
    rfl
  · show shot.context.view.current? = _
    rw [hview, hlast]
    rfl

/-- **Samples in order make a frame each**, none of which is empty, none of them runs back, and the
last one is current. -/
theorem satisfiesM_addSamples {past : List (Sample Float)} (h : film.Shows past)
    (hordered : Ordered (past ++ samples)) :
    SatisfiesM (fun film => film.Shows (past ++ samples)) (film.addSamples samples : m Film) := by
  induction samples generalizing film past with
  | nil =>
      rw [List.append_nil]
      exact .pure h
  | cons s ss ih =>
      rw [List.append_cons] at hordered ⊢
      have hone : Ordered (past ++ [s]) := (List.pairwise_append.mp hordered).1
      exact .bind (satisfiesM_addSample h hone) fun film hfilm => ih hfilm hordered

end Film

/-! ## Drawing a stream -/

namespace LiveFilm

section

variable {live : LiveFilm} {d d' : Decoder} {s s' : Source}

/-- A sample comes in, and the rest of the stream after it. -/
theorem run_of_sample {x : RawSample} (h : (d.next s).result = .ok (.sample x)) :
    (live.run d s : m _)
      = live.handle x >>= fun live => live.run (d.next s).decoder (d.next s).rest := by
  rw [run]
  split <;> simp_all

/-- A wait changes nothing. -/
theorem run_of_wait (h : (d.next s).result = .ok .wouldBlock) :
    (live.run d s : m _) = live.run (d.next s).decoder (d.next s).rest := by
  rw [run]
  split <;> simp_all

theorem run_of_ended (h : (d.next s).result = .ok .ended) :
    (live.run d s : m _) = pure (.ok (), (d.next s).decoder, live) := by
  rw [run]
  split <;> simp_all

theorem run_of_error {e : StreamError} (h : (d.next s).result = .error e) :
    (live.run d s : m _) = pure (.error e, (d.next s).decoder, live) := by
  rw [run]
  split <;> simp_all

/-- Drawing depends on what the next call comes to. -/
theorem run_congr (h : d.next s = d'.next s') :
    (live.run d s : m _) = live.run d' s' := by
  have hresult := congrArg Answer.result h
  cases hr : (d.next s).result with
  | error e =>
      rw [hr] at hresult
      rw [run_of_error hr, run_of_error hresult.symm, h]
  | ok o =>
      rw [hr] at hresult
      cases o with
      | sample x => rw [run_of_sample hr, run_of_sample hresult.symm, h]
      | wouldBlock => rw [run_of_wait hr, run_of_wait hresult.symm, h]
      | ended => rw [run_of_ended hr, run_of_ended hresult.symm, h]

end

/-- At the end of a stream that leaves nothing, there is nothing more to draw. -/
theorem run_close {d : Decoder} {s : Source} (hfail : s.close.failure? = none)
    (hwhole : d.buffered.length % frameSize = 0) :
    ∃ d', ∀ live : LiveFilm, (live.run d s.close : m _) = pure (.ok (), d', live) := by
  have hnext := next_close d s
  rw [hfail] at hnext
  have hresult := congrArg Decoder.Answer.result hnext
  rw [(atEnd_eq d _).1, closing, if_pos hwhole] at hresult
  exact ⟨_, fun live => run_of_ended hresult⟩

variable [LawfulMonad m]

/-- A sample is added to the film if it is kept. -/
theorem handle_eq (live : LiveFilm) (x : RawSample) :
    (live.handle x : m LiveFilm)
      = (fun film => ⟨film, (live.intake.process x.measured).2⟩) <$>
          live.film.addSamples (kept? (live.intake.process x.measured).1).toList := by
  unfold handle
  rcases live.intake.process x.measured with ⟨e | kept, intake⟩
  · show _ = _ <$> pure live.film
    rw [map_pure]
  · cases kept with
    | none =>
        show _ = _ <$> pure live.film
        rw [map_pure]
    | some kept =>
        show _ = _ <$> (live.film.addSample kept >>= pure)
        rw [bind_pure, map_eq_pure_bind]
        rfl

/-- **What the intake keeps is added to the film**, sample by sample. -/
theorem foldlM_handle_eq (live : LiveFilm) (xs : List RawSample) :
    (xs.foldlM handle live : m LiveFilm)
      = (fun film => ⟨film, live.intake.after (xs.map RawSample.measured)⟩) <$>
          live.film.addSamples
            ((live.intake.processEach (xs.map RawSample.measured)).filterMap kept?) := by
  induction xs generalizing live with
  | nil =>
      show pure live = _ <$> pure live.film
      rw [map_pure]
      rfl
  | cons x xs ih =>
      have hkept : (live.intake.processEach ((x :: xs).map RawSample.measured)).filterMap kept?
          = (kept? (live.intake.process x.measured).1).toList ++
            ((live.intake.process x.measured).2.processEach
              (xs.map RawSample.measured)).filterMap kept? := by
        rw [List.map_cons, processEach, List.filterMap_cons]
        cases kept? (live.intake.process x.measured).1 <;> rfl
      rw [List.foldlM_cons, handle_eq, bind_map_left, hkept, Film.addSamples, Film.addSamples,
        List.foldlM_append, map_bind]
      exact bind_congr fun film => ih ⟨film, _⟩

/-- The samples of a passage come in one after the other, whatever is waited for in between. -/
theorem run_passage {tail pieces : Source} {d d' : Decoder} {rs : List Reply}
    (h : Decoder.Passage tail d pieces rs d') (live : LiveFilm) :
    (live.run d (pieces ++ tail) : m _)
      = (samples rs).foldlM handle live >>= fun live => live.run d' tail := by
  induction h generalizing live with
  | past hnext => rw [run_congr hnext, samples_nil, List.foldlM_nil, pure_bind]
  | @answered d _ pieces left o rs ho hresult hrest _ ih =>
      cases o with
      | sample x =>
          rw [run_of_sample hresult, samples_cons_sample, List.foldlM_cons, bind_assoc]
          refine bind_congr fun live => ?_
          rw [hrest, ih]
      | wouldBlock =>
          -- A wait gives no sample, so the film stays as it is.
          rw [run_of_wait hresult, hrest, ih, samples_cons_wouldBlock]
      | ended => exact absurd rfl ho

/-- **Drawing a stream of whole frames is adding to the film what the intake keeps of them.** -/
theorem run_eq (live : LiveFilm) (counting : Bool) {s : Source} {xs : List RawSample}
    (hxs : (frames s.live.bytes).map decode = xs.map .ok)
    (hwhole : s.live.bytes.length % frameSize = 0) (hfail : s.close.failure? = none) :
    ∃ d intake, (live.run (.fresh counting) s : m _)
      = (fun film => (.ok (), d, ⟨film, intake⟩)) <$> live.film.addSamples
          ((live.intake.processEach (xs.map RawSample.measured)).filterMap kept?) := by
  obtain ⟨rs, d, hpassage, hcons⟩ :=
    exists_passage s.close (.fresh counting) s.live s.live_live
  obtain ⟨hsamples, hbuffered, -⟩ := hcons.of_fresh
  have hrs : samples rs = xs :=
    List.map_injective_iff.mpr (fun _ _ => Except.ok.inj) (hsamples.symm.trans hxs)
  have hleft : d.buffered.length % frameSize = 0 := by
    rw [hbuffered, length_remainder, Nat.mod_mod, hwhole]
  obtain ⟨d', hclose⟩ := run_close (m := m) hfail hleft
  have hrun := run_passage (m := m) hpassage live
  rw [s.live_append_close, hrs, foldlM_handle_eq, bind_map_left] at hrun
  refine ⟨d', live.intake.after (xs.map RawSample.measured), ?_⟩
  rw [hrun, map_eq_pure_bind]
  exact bind_congr fun film => hclose _

/-! ## The main theorem -/

/-- A film of a stream from which nothing has come in yet. -/
structure IsNew (settings : Settings) (live : LiveFilm) : Prop where
  create_eq : Context.create .usual settings [] = .ok live.film.context
  session_eq : live.film.session = .empty
  intake_eq : live.intake = { rule := .ofSettings settings }

/-- Films are started new. -/
theorem satisfiesM_start (r : LiveRequest) (settings : Settings) :
    SatisfiesM (fun started => ∀ live, started = .ok live → live.IsNew settings)
      (start r settings : m (Except Failure LiveFilm)) := by
  have hnew : ∀ (writer : Except String (Option FrameWriter)) (live : LiveFilm),
      (do
        let writer ← writer.mapError .frameFolder
        let ctx ← (Context.create .usual settings []).mapError .setup
        let canvas ← (Raster.make r.width r.height).mapError .canvas
        return ⟨{ context := ctx, canvas := canvas, writer := writer },
          { rule := .ofSettings settings }⟩ : Except Failure LiveFilm) = .ok live →
      live.IsNew settings := by
    intro writer live hlive
    cases writer with
    | error reason => cases hlive
    | ok writer =>
        cases hcontext : Context.create .usual settings [] with
        | error e =>
            rw [hcontext] at hlive
            cases hlive
        | ok ctx =>
            rw [hcontext] at hlive
            cases hcanvas : Raster.make r.width r.height with
            | error e =>
                rw [hcanvas] at hlive
                cases hlive
            | ok canvas =>
                rw [hcanvas] at hlive
                cases hlive
                exact ⟨hcontext, rfl, rfl⟩
  unfold start
  cases r.folder <;> exact .bind .trivial fun writer _ => .pure (hnew writer)

/-- A new film shows nothing. -/
theorem IsNew.shows {settings : Settings} {live : LiveFilm} (h : live.IsNew settings) :
    live.film.Shows [] := by
  obtain ⟨hcreate, hsession, -⟩ := h
  have hview := Context.view_of_create hcreate
  refine ⟨?_, ?_, ?_, ?_, ?_, ?_⟩ <;> first | rw [hsession]; rfl | rw [hview]; rfl

/-- **Samples that are drawn as they come in are those of the recording.** Take bytes that make whole
frames. However a stream delivers them before it ends, in whatever pieces and with whatever waits, a
film of it is made of the samples that are kept of the recording if the samples that are older than
any before them are taken out: it consists of a frame for each of them, in order and none empty, none
runs back in time, and the last one is current. -/
theorem live_agrees_with_batch (settings : Settings) (bs : List UInt8)
    (hbs : bs.length % frameSize = 0) :
    ∃ (xs : List RawSample) (kept : List (Sample Float)),
      (∀ (waiting : Waiting) (s : Source), s.live.bytes = bs → s.close.failure? = none →
        (∀ n, 0 < n → n ≤ s.live.blocks → waiting n = none) →
        (load waiting s).result = .ok xs) ∧
      processAll { rule := .ofSettings settings } ((forward xs).map RawSample.measured)
        = .ok kept ∧
      (∀ r, SatisfiesM (fun started => ∀ live, started = .ok live → live.IsNew settings)
        (start r settings : m (Except Failure LiveFilm))) ∧
      ∀ live : LiveFilm, live.IsNew settings → ∀ (counting : Bool) (s : Source),
        s.live.bytes = bs → s.close.failure? = none →
        (∃ d intake, (live.run (.fresh counting) s : m _)
          = (fun film => (.ok (), d, ⟨film, intake⟩)) <$> live.film.addSamples kept) ∧
        SatisfiesM (fun drawn => drawn.1 = .ok () ∧ drawn.2.2.film.Shows kept)
          (live.run (.fresh counting) s : m _) := by
  obtain ⟨xs, hxs⟩ := exists_map_decode_frames bs
  have hmeasured : forward (xs.map RawSample.measured) = (forward xs).map RawSample.measured :=
    forward_map (f := RawSample.measured) (fun _ => rfl) xs
  have hbatch := processAll_forward (.ofSettings settings) (xs.map RawSample.measured)
  obtain ⟨kept, hkept, hordered⟩ :=
    exists_kept_of_ordered settings (ordered_forward (xs.map RawSample.measured))
  rw [hbatch] at hkept
  obtain rfl := Except.ok.inj hkept
  rw [hmeasured] at hbatch
  -- The kept samples are those that the intake keeps in spite of its refusals.
  refine ⟨xs, _, fun waiting s hs hfail hwaits => ?_, hbatch, fun r => satisfiesM_start r settings,
    fun live hnew counting s hs hfail => ?_⟩
  · rw [← hs] at hxs hbs
    obtain ⟨d, -, hload⟩ := exists_load_eq waiting s xs hwaits hxs
    rw [hload, hfail]
    exact if_pos hbs
  · rw [← hs] at hxs hbs
    obtain ⟨d, intake, hrun⟩ := run_eq (m := m) live counting hxs hbs hfail
    rw [hnew.intake_eq] at hrun
    refine ⟨⟨d, intake, hrun⟩, ?_⟩
    rw [hrun]
    exact (Film.satisfiesM_addSamples hnew.shows hordered).map fun hfilm => ⟨rfl, hfilm⟩

/-- Three samples, the second of which runs back in time. -/
def stumbling : List (RawSample × UInt64) :=
  [(oddSample, 7), ({ oddSample with time := 3 }, 8), ({ oddSample with time := 9 }, 9)]

/-- Their frames. -/
def stumblingBytes : List UInt8 := stumbling.flatMap fun y => encode y.1 y.2

/-- A stream that is cut inside the first frame, and has to be waited for there. -/
def stumblingStream : Source :=
  [.data (stumblingBytes.take 100), .wouldBlock, .data (stumblingBytes.drop 100), .ended]

/-- A film without a HUD, of which no frame is kept. -/
def rushes : LiveFilm :=
  ⟨{ context := Context.plain [], canvas := { width := 64, height := 48 }, writer := none },
    { rule := .ofSettings {} }⟩

/-- In a rehearsal the film shows the first and the third sample, as the recording without the second
one does. -/
theorem live_of_stumbling :
    stumblingBytes.length % frameSize = 0 ∧ rushes.IsNew {} ∧
      ∃ kept, processAll { rule := .ofSettings {} }
          ([oddSample, { oddSample with time := 9 }].map RawSample.measured) = .ok kept ∧
        kept.length = 2 ∧
        ∀ (input : Source) (disk : Disk),
          let drawn := (rushes.run (.fresh true) stumblingStream : Rehearsal _) input disk
          drawn.1.1 = .ok () ∧ drawn.1.2.2.film.Shows kept := by
  have hwhole : stumblingBytes.length % frameSize = 0 := by
    rw [stumblingBytes, length_flatMap_encode, Nat.mul_mod_right]
  have hnew : rushes.IsNew {} := ⟨rfl, rfl, rfl⟩
  have hbytes : stumblingStream.live.bytes = stumblingBytes := by
    show stumblingBytes.take 100 ++ (stumblingBytes.drop 100 ++ []) = _
    rw [List.append_nil, List.take_append_drop]
  obtain ⟨xs, kept, hload, hkept, -, hlive⟩ :=
    live_agrees_with_batch (m := Rehearsal) {} stumblingBytes hwhole
  have hclose : stumblingStream.close.failure? = none := rfl
  obtain ⟨-, hshows⟩ := hlive rushes hnew true stumblingStream hbytes hclose
  -- The samples are told by their frames.
  have hxs : xs = stumbling.map Prod.fst := by
    have hframes := map_decode_frames_flatMap_encode stumbling
    have hfirst := hload .patient stumblingStream hbytes hclose fun _ _ _ => rfl
    obtain ⟨d, -, hsame⟩ := exists_load_eq .patient stumblingStream (stumbling.map Prod.fst)
      (fun _ _ _ => rfl) (by rw [hbytes]; exact hframes)
    rw [hsame, hclose, hbytes] at hfirst
    dsimp only at hfirst
    rw [if_pos hwhole] at hfirst
    exact (Except.ok.inj hfirst).symm
  have hforward : forward xs = [oddSample, { oddSample with time := 9 }] := by
    rw [hxs]
    rfl
  rw [hforward] at hkept
  have hcount : (processAll { rule := .ofSettings {} }
      ([oddSample, { oddSample with time := 9 }].map RawSample.measured)).map List.length
        = .ok 2 := rfl
  refine ⟨hwhole, hnew, kept, hkept, ?_, fun input disk => ?_⟩
  · rw [hkept] at hcount
    exact Except.ok.inj hcount
  · obtain ⟨drawn, hdrawn⟩ := hshows
    rw [← hdrawn]
    exact (drawn input disk).1.property

end LiveFilm

end RideHud.Console
