import Mathlib
import RideHud.Proofs.Console.Live
import RideHud.Proofs.Console.Record

/-!
# Numbers of frames

A film whose frames are kept stores them under the numbers from zero on, without gaps, whatever
becomes of each frame (`frames_have_no_gaps`). Whether a frame is stored is known in three places: the
writer counts those that are, the session those that are not, and the record tells both apart.

* `Numbered`: what all three agree on;
* `satisfiesM_run_take`: one more frame keeps to it;
* `exists_run_eq_takes`: drawing a stream is one take after the other.
-/

namespace RideHud.Console

open Intake Wire

variable {m : Type → Type} [Monad m] [LawfulMonad m] [Host m] {film : Film} {w : FrameWriter}
  {ctx : Context} {canvas : Raster} {result : Except HudError Unit}

/-! ## Frames that are drawn -/

/-- How drawing a frame ended, and the picture that it left. -/
structure Exposure where
  result : Except HudError Unit
  picture : Raster

/-- The frames of some sources. They do not depend on what becomes of them. -/
def exposures (ctx : Context) (canvas : Raster) : List SampleSource → List Exposure
  | [] => []
  | source :: sources =>
    let (result, ctx, canvas) := (ctx.setSource source).render canvas
    ⟨result, canvas⟩ :: exposures ctx canvas sources

theorem length_exposures (ctx : Context) (canvas : Raster) (sources : List SampleSource) :
    (exposures ctx canvas sources).length = sources.length := by
  induction sources generalizing ctx canvas with
  | nil => rfl
  | cons source sources ih => exact congrArg (· + 1) (ih _ _)

/-- What is to be stored of some frames: the pictures of those that were drawn to the end. -/
def pictures (shots : List Exposure) : List ByteArray :=
  (shots.filter fun shot => shot.result.isOk).map fun shot => Png.encode shot.picture

/-- Writing a frame is recorded. -/
theorem satisfiesM_run_write (w : FrameWriter) (r : Raster) (log : List Writing) :
    SatisfiesM (fun out => ∃ isStored,
      out.1.1.isOk = isStored ∧
      out.1.2 = { w with written := w.written + if isStored then 1 else 0 } ∧
      out.2 = log ++ [⟨w.path w.written, Thunk.mk fun _ => Png.encode r, isStored⟩])
      ((w.write r : Recorded m _).run log) := by
  rw [w.write_eq, StateT.run_map, run_write, Functor.map_map]
  refine SatisfiesM.trivial.map fun {written} _ => ⟨written.isOk, ?_, rfl, rfl⟩
  cases written <;> rfl

theorem satisfiesM_run_millis (log : List Writing) :
    SatisfiesM (fun out => out.2 = log) ((Host.millis : Recorded m Float).run log) :=
  .bind .trivial fun _ _ => .pure rfl

/-- What becomes of a frame, and what is recorded of it. -/
inductive Fate (w : FrameWriter) (shot : Exposure) : FrameOutcome → List Writing → Prop
  /-- Drawing failed, and nothing was written. -/
  | notDrawn (h : shot.result.isOk = false) : Fate w shot .failed []
  /-- The frame was written, and is not there. -/
  | notStored (h : shot.result.isOk = true) :
      Fate w shot .failed [⟨w.path w.written, Thunk.mk fun _ => Png.encode shot.picture, false⟩]
  | stored {outcome : FrameOutcome} (h : shot.result.isOk = true) (houtcome : outcome ≠ .failed) :
      Fate w shot outcome [⟨w.path w.written, Thunk.mk fun _ => Png.encode shot.picture, true⟩]

/-- A writer counts what is stored. -/
def advance (w : FrameWriter) (log : List Writing) : FrameWriter :=
  { w with written := w.written + log.countP Writing.isStored }

namespace Film

/-- **A frame meets one of three fates.** -/
theorem satisfiesM_run_shoot (hdrawn : film.context.render film.canvas = (result, ctx, canvas))
    (hwriter : film.writer = some w) (log : List Writing) :
    SatisfiesM (fun out => ∃ entries, Fate w ⟨result, canvas⟩ out.1.1 entries ∧
      out.2 = log ++ entries ∧
      out.1.2 = { film with
        context := ctx
        canvas := canvas
        writer := some (advance w entries) })
      ((film.shoot : Recorded m _).run log) := by
  unfold shoot
  rw [hdrawn, hwriter]
  cases result with
  | error e => exact .pure ⟨[], .notDrawn rfl, (List.append_nil log).symm, rfl⟩
  | ok u =>
      dsimp only
      rw [StateT.run_bind]
      refine .bind (satisfiesM_run_write w canvas log) fun ⟨⟨written, writer⟩, log'⟩ hwrite => ?_
      obtain ⟨isStored, hstored, rfl, rfl⟩ := hwrite
      cases written with
      | error reason =>
          obtain rfl : false = isStored := hstored
          exact .pure ⟨_, .notStored rfl, rfl, rfl⟩
      | ok path =>
          obtain rfl : true = isStored := hstored
          refine .pure ⟨_, .stored rfl ?_, rfl, rfl⟩
          unfold drawnOutcome
          split <;> exact nofun

end Film

/-! ## Numbers -/

/-- Each file is written under the next number, and takes it if it is stored. -/
inductive Consecutive (w : FrameWriter) : List Writing → Prop
  | nil : Consecutive w []
  | concat {log : List Writing} {entry : Writing} (h : Consecutive w log)
      (hpath : entry.path = w.path (advance w log).written) : Consecutive w (log ++ [entry])

theorem advance_append (w : FrameWriter) (log entries : List Writing) :
    advance w (log ++ entries) = advance (advance w log) entries := by
  unfold advance
  rw [List.countP_append, Nat.add_assoc]

/-- The files that are stored have the numbers that were taken, in order. -/
theorem Consecutive.stored_eq {w : FrameWriter} {log : List Writing} (h : Consecutive w log) :
    (log.filter Writing.isStored).map Writing.path
      = (List.range' w.written (log.countP Writing.isStored)).map w.path := by
  induction h with
  | nil => rfl
  | @concat log entry h hpath ih =>
      rw [List.filter_append, List.map_append, List.countP_append, ih, List.filter_singleton,
        List.countP_singleton]
      cases entry.isStored with
      | false => exact List.append_nil _
      | true =>
          rw [if_pos rfl, List.range'_concat, List.map_append, Nat.one_mul]
          exact congrArg (fun path => _ ++ [path]) hpath

namespace Film

/-- The film consists of some frames, and the record is that of their files: those that were drawn
to the end are written, each once and in order, and all frames that are not stored have failed. -/
structure Numbered (w : FrameWriter) (shots : List Exposure) (film : Film) (log : List Writing) :
    Prop where
  frames_eq : film.session.frames = shots.length
  failedFrames_eq : film.session.failedFrames + log.countP Writing.isStored = shots.length
  writer_eq : film.writer = some (advance w log)
  content_eq : log.map (fun entry => entry.content.get) = pictures shots
  consecutive : Consecutive w log

variable {shots : List Exposure} {log : List Writing}

/-- The film tells how many frames were stored. -/
theorem Numbered.written_eq (h : Numbered w shots film log) :
    film.written = w.written + log.countP Writing.isStored := by
  rw [written, h.writer_eq]
  rfl

/-- **Whatever becomes of one more frame, the numbers have no gaps.** -/
theorem Numbered.next {film' : Film} {shot : Exposure} {outcome : FrameOutcome}
    {entries : List Writing} (h : Numbered w shots film log)
    (hfate : Fate (advance w log) shot outcome entries)
    (hframes : film'.session.frames = film.session.frames + 1)
    (hfailed : film'.session.failedFrames
      = film.session.failedFrames + if outcome = .failed then 1 else 0)
    (hwriter : film'.writer = some (advance (advance w log) entries)) :
    Numbered w (shots ++ [shot]) film' (log ++ entries) where
  frames_eq := by
    rw [hframes, h.frames_eq, List.length_append, List.length_singleton]
  failedFrames_eq := by
    have hbefore := h.failedFrames_eq
    rw [hfailed, List.countP_append, List.length_append, List.length_singleton, ← hbefore]
    cases hfate with
    | notDrawn _ =>
        rw [if_pos rfl, List.countP_nil]
        omega
    | notStored _ =>
        rw [if_pos rfl, List.countP_singleton, if_neg Bool.false_ne_true]
        omega
    | stored _ houtcome =>
        rw [if_neg houtcome, List.countP_singleton, if_pos rfl]
        omega
  writer_eq := by rw [hwriter, advance_append]
  content_eq := by
    rw [List.map_append, h.content_eq, pictures, pictures, List.filter_append, List.map_append]
    congr 1
    cases hfate with
    | notDrawn hresult => simp [hresult]
    | notStored hresult => simp [hresult]
    | stored hresult _ => simp [hresult]
  consecutive := by
    cases hfate with
    | notDrawn _ =>
        rw [List.append_nil]
        exact h.consecutive
    | notStored _ => exact h.consecutive.concat rfl
    | stored _ _ => exact h.consecutive.concat rfl

/-- One more frame is numbered, and the next one goes on from what it leaves. -/
theorem satisfiesM_run_take (h : Numbered w shots film log) (source : SampleSource)
    (hdrawn : (film.context.setSource source).render film.canvas = (result, ctx, canvas)) :
    SatisfiesM (fun out => Numbered w (shots ++ [⟨result, canvas⟩]) out.1 out.2 ∧
      out.1.context = ctx ∧ out.1.canvas = canvas)
      ((film.take source : Recorded m Film).run log) := by
  obtain ⟨hframes, hfailed⟩ := film.counts_aim source
  have hwriter : (film.aim source).writer = some (advance w log) := h.writer_eq
  unfold take addFrame
  rw [StateT.run_bind]
  refine .bind (satisfiesM_run_millis log) ?_
  rintro ⟨started, _⟩ rfl
  rw [StateT.run_bind]
  refine .bind (satisfiesM_run_shoot hdrawn hwriter _) ?_
  rintro ⟨⟨outcome, shot⟩, _⟩ ⟨entries, hfate, rfl, rfl⟩
  rw [StateT.run_bind]
  refine .bind (satisfiesM_run_millis _) ?_
  rintro ⟨stopped, _⟩ rfl
  refine .pure ⟨h.next hfate ?_ ?_ rfl, rfl, rfl⟩
  · exact congrArg (· + 1) hframes
  · exact congrArg (· + if outcome = .failed then 1 else 0) hfailed

/-- **The numbers have no gaps after any number of frames.** -/
theorem satisfiesM_run_takes (h : Numbered w shots film log) (sources : List SampleSource) :
    SatisfiesM (fun out =>
      Numbered w (shots ++ exposures film.context film.canvas sources) out.1 out.2)
      ((film.takes sources : Recorded m Film).run log) := by
  induction sources generalizing film shots log with
  | nil =>
      refine .pure ?_
      rwa [exposures, List.append_nil]
  | cons source sources ih =>
      rcases hdrawn : (film.context.setSource source).render film.canvas with ⟨result, ctx, canvas⟩
      rw [exposures, hdrawn, takes, List.foldlM_cons, StateT.run_bind]
      refine .bind (satisfiesM_run_take h source hdrawn) ?_
      rintro ⟨next, log'⟩ ⟨hnext, rfl, rfl⟩
      have hrest := ih hnext
      rwa [List.append_assoc] at hrest

end Film

/-! ## Live films -/

namespace LiveFilm

omit [LawfulMonad m] in
/-- Samples from outside are sources that were pushed. -/
theorem addSamples_eq_takes (film : Film) (samples : List (Sample Float)) :
    (film.addSamples samples : m Film) = film.takes (samples.map .pushed) := by
  rw [Film.takes, List.foldlM_map]
  rfl

/-- **Drawing a stream is one take after the other**, whatever the stream and the surroundings. -/
theorem exists_run_eq_takes (intake : Intake Float) (d : Decoder) (s : Source) :
    ∃ (result : Except StreamError Unit) (d' : Decoder) (intake' : Intake Float)
      (sources : List SampleSource),
      ∀ (m : Type → Type) [Monad m] [LawfulMonad m] [Host m] (film : Film),
        (run ⟨film, intake⟩ d s : m _)
          = (fun film => (result, d', ⟨film, intake'⟩)) <$> film.takes sources := by
  -- Every call that does not end the run uses up some of the stream.
  induction hsize : s.size using Nat.strong_induction_on generalizing intake d s with
  | _ n ih =>
      cases hnext : (d.next s).result with
      | error e =>
          refine ⟨.error e, (d.next s).decoder, intake, [], ?_⟩
          intro m _ _ _ film
          rw [run_of_error hnext, Film.takes, List.foldlM_nil, map_pure]
      | ok o =>
          cases o with
          | ended =>
              refine ⟨.ok (), (d.next s).decoder, intake, [], ?_⟩
              intro m _ _ _ film
              rw [run_of_ended hnext, Film.takes, List.foldlM_nil, map_pure]
          | wouldBlock =>
              have hlt := Decoder.size_rest_next_lt d s _ hnext nofun
              obtain ⟨result, d', intake', sources, hrun⟩ :=
                ih _ (hsize ▸ hlt) intake (d.next s).decoder (d.next s).rest rfl
              refine ⟨result, d', intake', sources, ?_⟩
              intro m _ _ _ film
              rw [run_of_wait hnext, hrun]
          | sample x =>
              have hlt := Decoder.size_rest_next_lt d s _ hnext nofun
              obtain ⟨result, d', intake', sources, hrun⟩ :=
                ih _ (hsize ▸ hlt) (intake.process x.measured).2 (d.next s).decoder
                  (d.next s).rest rfl
              let kept := (kept? (intake.process x.measured).1).toList
              refine ⟨result, d', intake', kept.map .pushed ++ sources, ?_⟩
              intro m _ _ _ film
              rw [run_of_sample hnext, handle_eq, bind_map_left, Film.takes_append, map_bind,
                addSamples_eq_takes]
              exact bind_congr fun film => hrun m film

end LiveFilm

/-! ## The main theorem -/

/-- **The numbers of frames have no gaps.** Take a HUD, a folder that frames are written to and a head
for their names. Whatever surroundings a film is made in, and whatever frames cannot be drawn or
written, after any takes: the number of frames that were written is that of all frames but for those
that failed; the files that were stored are those under the numbers from zero up to it, each once and
in order, and no two numbers have the same path; and each frame that was drawn to the end was written
once, in order, under the next number. The frames of a recording are such takes, however many are
asked for, and so are those of a stream, wherever it ends. -/
theorem frames_have_no_gaps {registry : Registry} {settings : Settings}
    {samples : List (Sample Float)} (h : Context.create registry settings samples = .ok ctx)
    (canvas : Raster) (folder head : String) :
    let w : FrameWriter := { folder := folder, head := head }
    let film : Film := { context := ctx, canvas := canvas, writer := some w }
    (∀ (m : Type → Type) [Monad m] [LawfulMonad m] [Host m] (sources : List SampleSource),
      Records (film.takes sources : Recorded m Film) (film.takes sources) ∧
      SatisfiesM (fun out =>
        let drawn := out.1
        let log := out.2
        drawn.session.frames = sources.length ∧
        drawn.written + drawn.session.failedFrames = drawn.session.frames ∧
        (log.filter Writing.isStored).map Writing.path = (List.range drawn.written).map w.path ∧
        log.map (fun entry => entry.content.get) = pictures (exposures ctx canvas sources) ∧
        Consecutive w log)
        ((film.takes sources : Recorded m Film).run [])) ∧
    Function.Injective w.path ∧
    (∀ (start step : Micros) (n : ℕ), ∃ sources,
      ∀ (m : Type → Type) [Monad m] [LawfulMonad m] [Host m],
        (film.addFrames start step 0 n : m Film) = film.takes sources) ∧
    ∀ (intake : Intake Float) (d : Decoder) (s : Source), ∃ result d' intake' sources,
      ∀ (m : Type → Type) [Monad m] [LawfulMonad m] [Host m],
        (LiveFilm.run ⟨film, intake⟩ d s : m _)
          = (fun film => (result, d', ⟨film, intake'⟩)) <$> film.takes sources := by
  intro w film
  refine ⟨?_, w.path_injective, ?_, ?_⟩
  · intro m _ _ _ sources
    refine ⟨film.records_takes sources, ?_⟩
    have hnew : Film.Numbered w [] film [] := ⟨rfl, rfl, rfl, rfl, .nil⟩
    refine (Film.satisfiesM_run_takes hnew sources).imp ?_
    rintro ⟨drawn, log⟩ hdrawn
    have hzero : w.written = 0 := rfl
    have hwritten := hdrawn.written_eq
    have hstored := hdrawn.consecutive.stored_eq
    rw [hzero, Nat.zero_add] at hwritten
    rw [hzero, ← List.range_eq_range', ← hwritten] at hstored
    refine ⟨?_, ?_, hstored, hdrawn.content_eq, hdrawn.consecutive⟩
    · exact hdrawn.frames_eq.trans (length_exposures ctx canvas sources)
    · have hfailed := hdrawn.failedFrames_eq
      rw [← hdrawn.frames_eq, ← hwritten, Nat.add_comm] at hfailed
      exact hfailed
  · intro start step n
    refine ⟨Film.plan ctx.view.samples start step 0 n, ?_⟩
    intro m _ _ _
    exact film.addFrames_eq_takes (Context.sound_of_create h)
  · intro intake d s
    obtain ⟨result, d', intake', sources, hrun⟩ := LiveFilm.exists_run_eq_takes intake d s
    refine ⟨result, d', intake', sources, ?_⟩
    intro m _ _ _
    exact hrun m film

/-- Three samples from outside, one after the other. -/
def threeSamples : List SampleSource :=
  [.pushed (Context.reading 7), .pushed (Context.reading 8), .pushed (Context.reading 9)]

/-- A film of them in a rehearsal, whatever is on the disk. -/
theorem numbers_of_threeSamples :
    Context.create .usual {} [] = .ok (Context.plain []) ∧
      ∀ (input : Source) (disk : Disk),
        let w : FrameWriter := { folder := "frames", head := "live_" }
        let film : Film :=
          { context := Context.plain [], canvas := { width := 64, height := 48 }, writer := some w }
        let out := ((film.takes threeSamples : Recorded Rehearsal Film).run [] input disk).1
        out.1.written + out.1.session.failedFrames = 3 ∧
          (out.2.filter Writing.isStored).map Writing.path
            = (List.range out.1.written).map w.path := by
  have hcreate : Context.create .usual {} [] = .ok (Context.plain []) := rfl
  refine ⟨hcreate, ?_⟩
  intro input disk
  obtain ⟨hfilms, -⟩ :=
    frames_have_no_gaps hcreate { width := 64, height := 48 } "frames" "live_"
  obtain ⟨-, hnumbered⟩ := hfilms Rehearsal threeSamples
  obtain ⟨hframes, hwritten, hstored, -⟩ := of_satisfiesM_rehearsal hnumbered input disk
  exact ⟨hwritten.trans hframes, hstored⟩

end RideHud.Console
