import Mathlib
import RideHud.Console.Film
import RideHud.Proofs.Hud.History

/-!
# Takes of a film

A take turns to a source, draws what is current then and counts the frame. What a take comes to is up
to the surroundings, but not what is taken next: the frames of a recording are takes of sources that
are known beforehand (`addFrames_eq_takes`), each of them where a search of the whole recording ends.
-/

namespace RideHud.Console

open Context

/-- Two ways to go on are the same if they agree on all that may be gone on from. -/
theorem bind_congr_of_satisfiesM {m : Type → Type} [Monad m] [LawfulMonad m] {α β : Type}
    {p : α → Prop} {x : m α} {f g : α → m β} (h : SatisfiesM p x) (hfg : ∀ a, p a → f a = g a) :
    x >>= f = x >>= g := by
  obtain ⟨y, rfl⟩ := h
  rw [bind_map_left, bind_map_left]
  apply bind_congr
  intro a
  exact hfg a.1 a.2

/-- In a rehearsal there is one outcome. -/
theorem of_satisfiesM_rehearsal {α : Type} {p : α → Prop} {x : Rehearsal α} (h : SatisfiesM p x)
    (input : Wire.Source) (disk : Disk) : p (x input disk).1 := by
  obtain ⟨y, rfl⟩ := h
  exact (y input disk).1.property

namespace Film

/-! ## Takes -/

/-- Turn to a source. A sample that comes from outside is new to the session. -/
def aim (film : Film) (source : SampleSource) : Film :=
  { film with
    session := match source with
      | .pushed sample => film.session.addSample sample
      | _ => film.session
    context := film.context.setSource source }

/-- Turning to a source leaves the counts of frames. -/
theorem counts_aim (film : Film) (source : SampleSource) :
    (film.aim source).session.frames = film.session.frames ∧
      (film.aim source).session.failedFrames = film.session.failedFrames := by
  cases source <;> exact ⟨rfl, rfl⟩

variable {m : Type → Type} [Monad m] [Host m]

/-- Make a frame of a source. -/
def take (film : Film) (source : SampleSource) : m Film := (film.aim source).addFrame

/-- Make a frame of each of some sources, one after the other. -/
def takes (film : Film) (sources : List SampleSource) : m Film := sources.foldlM take film

variable {samples : List (Sample Float)} {start step : Micros} {i k n place : ℕ} {time : Micros}

/-- The source of a frame, if its time can be told and lies inside the recording. -/
def shot? (samples : List (Sample Float)) (start step : Micros) (i : ℕ) : Option SampleSource :=
  (frameTime? start step i).bind fun time =>
    (Timeline.lookup samples 0 time).toOption.map (.recorded · time)

/-- The sources of up to `n` frames, the first of which is the `i`-th one. -/
def plan (samples : List (Sample Float)) (start step : Micros) : ℕ → ℕ → List SampleSource
  | _, 0 => []
  | i, n + 1 =>
    match shot? samples start step i with
    | none => []
    | some source => source :: plan samples start step (i + 1) n

/-- Planning goes on as long as there is a source. -/
theorem lt_length_plan_iff :
    k < (plan samples start step i n).length
      ↔ k < n ∧ ∀ j ≤ k, (shot? samples start step (i + j)).isSome := by
  induction n generalizing i k with
  | zero => simp [plan]
  | succ n ih =>
      rw [plan]
      cases hshot : shot? samples start step i with
      | none =>
          constructor
          · intro h
            cases h
          · rintro ⟨-, hall⟩
            have hfirst := hall 0 (Nat.zero_le k)
            rw [Nat.add_zero, hshot] at hfirst
            cases hfirst
      | some source =>
          cases k with
          | zero => simp [hshot]
          | succ k =>
              rw [List.length_cons, Nat.add_lt_add_iff_right, Nat.add_lt_add_iff_right, ih]
              have hshift : ∀ j, i + (j + 1) = i + 1 + j := by omega
              apply and_congr_right
              intro _
              constructor
              · intro hall j hj
                cases j with
                | zero =>
                    rw [Nat.add_zero, hshot]
                    rfl
                | succ j =>
                    rw [hshift]
                    exact hall j (by omega)
              · intro hall j hj
                rw [← hshift]
                exact hall (j + 1) (by omega)

/-- The frames that are planned are taken of their sources. -/
theorem shot?_of_getElem?_plan {source : SampleSource}
    (h : (plan samples start step i n)[k]? = some source) :
    shot? samples start step (i + k) = some source := by
  induction n generalizing i k with
  | zero => cases h
  | succ n ih =>
      rw [plan] at h
      cases hshot : shot? samples start step i with
      | none =>
          rw [hshot] at h
          cases h
      | some first =>
          rw [hshot] at h
          cases k with
          | zero =>
              rw [Nat.add_zero, hshot]
              exact h
          | succ k =>
              have hshift : i + (k + 1) = i + 1 + k := by omega
              rw [hshift]
              exact ih h

/-! ## Frames in any surroundings -/

section

variable [LawfulMonad m]

theorem takes_append (film : Film) (sources sources' : List SampleSource) :
    (film.takes (sources ++ sources') : m Film)
      = film.takes sources >>= fun film => film.takes sources' :=
  List.foldlM_append

/-- A frame leaves the session and what the HUD sees, and it is not empty if there is something to
see. -/
theorem satisfiesM_shoot (film : Film) :
    SatisfiesM (fun shot => (film.context.view.current?.isSome → shot.1 ≠ .empty) ∧
      shot.2.session = film.session ∧ shot.2.context.view = film.context.view)
      (film.shoot : m (FrameOutcome × Film)) := by
  obtain ⟨hview, -⟩ := film.context.render_fixes film.canvas
  unfold shoot
  rcases hrender : film.context.render film.canvas with ⟨result, ctx, canvas⟩
  rw [hrender] at hview
  cases result with
  | error e => exact .pure ⟨nofun, rfl, hview⟩
  | ok u =>
      cases hwriter : film.writer with
      | none => exact .pure ⟨nofun, rfl, hview⟩
      | some writer =>
          refine .bind .trivial fun ⟨written, writer⟩ _ => ?_
          cases written with
          | error reason => exact .pure ⟨nofun, rfl, hview⟩
          | ok path =>
              refine .pure ⟨fun hcurrent => ?_, rfl, hview⟩
              rw [drawnOutcome, show ctx.view = _ from hview, if_pos hcurrent]
              exact nofun

/-- A frame is counted, and leaves what the HUD sees. -/
theorem satisfiesM_take (film : Film) (source : SampleSource) :
    SatisfiesM (fun drawn => drawn.context.view = { film.context.view with source := source } ∧
      drawn.session.frames = film.session.frames + 1) (film.take source : m Film) := by
  unfold take addFrame
  refine .bind .trivial fun started _ => .bind (satisfiesM_shoot _) fun ⟨outcome, shot⟩ hshot => ?_
  obtain ⟨-, hsession, hview⟩ := hshot
  refine .bind .trivial fun stopped _ => .pure ⟨hview, ?_⟩
  show shot.session.frames + 1 = _
  rw [hsession, (counts_aim film source).1]

/-- Every take is counted. -/
theorem satisfiesM_takes (film : Film) (sources : List SampleSource) :
    SatisfiesM (fun drawn => drawn.session.frames = film.session.frames + sources.length)
      (film.takes sources : m Film) := by
  induction sources generalizing film with
  | nil => exact .pure rfl
  | cons source sources ih =>
      refine .bind (satisfiesM_take film source) fun drawn hdrawn => ?_
      obtain ⟨-, hframes⟩ := hdrawn
      refine (ih drawn).imp fun {a} ha => ?_
      rw [ha, hframes, List.length_cons]
      omega

/-! ## Frames of a recording -/

/-- A search finds what one of the whole recording finds. -/
theorem toOption_seek {ctx : Context} (h : Sound ctx.view) (time : Micros) :
    (ctx.seek time).1.toOption = (Timeline.lookup ctx.view.samples 0 time).toOption := by
  rw [h.seek_eq]
  split
  · next hempty =>
      rw [List.isEmpty_iff.mp hempty]
      rfl
  · cases Timeline.lookup ctx.view.samples 0 time <;> rfl

/-- **The frames of a recording are takes that are planned**, whatever becomes of each of them. -/
theorem addFrames_eq_takes (film : Film) (h : Sound film.context.view) :
    (addFrames start step i n film : m Film)
      = film.takes (plan film.context.view.samples start step i n) := by
  induction n generalizing i film with
  | zero => rfl
  | succ n ih =>
      rw [addFrames, plan, shot?]
      cases frameTime? start step i with
      | none => rfl
      | some time =>
          have hfound := toOption_seek h time
          dsimp only [Option.bind_some]
          rcases film.context.seek_cases time with ⟨e, hseek⟩ | ⟨place, hlookup, hseek⟩
          · rw [hseek] at hfound ⊢
            rw [← hfound]
            rfl
          · rw [hseek] at hfound ⊢
            rw [← hfound]
            -- The frame is a take of the source that was found, and the view stays sound with it.
            apply bind_congr_of_satisfiesM (satisfiesM_take film (.recorded place time))
            rintro drawn ⟨hview, -⟩
            have hsound : Sound drawn.context.view := by
              rw [hview]
              rintro place' time' ⟨⟩
              exact h.resolved hlookup
            rw [ih drawn hsound, hview]
            rfl

end

end Film

end RideHud.Console
