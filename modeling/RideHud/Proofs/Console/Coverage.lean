import Mathlib
import RideHud.Proofs.Console.Take

/-!
# What a film of a recording covers

The frames of a recording are taken at equal steps of time. There is one for every step up to the end
of the recording, unless fewer are asked for (`film_covers_recording`). Neither times that cannot be
told nor the hints of the searches make a difference: the time of a frame that lies inside can be told
(`frameTime?_eq_some_iff`), and each frame shows what a search of the whole recording finds
(`shot?_eq_some_iff`).
-/

namespace RideHud.Console.Film

open Timeline

variable {samples : List (Sample Float)} {last : Sample Float} {start step : Micros}
  {i k n place : ℕ} {time : Micros}

/-! ## Times -/

/-- The time of a frame as a number, however large. -/
def exactTime (start step : Micros) (i : ℕ) : ℕ := start.toNat + i * step.toNat

theorem exactTime_mono (start step : Micros) {j : ℕ} (hij : i ≤ j) :
    exactTime start step i ≤ exactTime start step j :=
  Nat.add_le_add_left (Nat.mul_le_mul_right _ hij) _

/-- The time of a frame is told if it is a time at all. -/
theorem frameTime?_eq_some_iff :
    frameTime? start step i = some time ↔ time.toNat = exactTime start step i := by
  unfold frameTime? exactTime
  dsimp only
  rw [Nat.add_comm]
  constructor
  · intro h
    split at h
    · next hlt =>
        cases h
        exact UInt64.toNat_ofNat_of_lt hlt
    · cases h
  · intro h
    rw [← h, if_pos time.toNat_lt]
    exact congrArg some (UInt64.ofNat_toNat)

/-! ## Frames inside the recording -/

/-- The source of a frame is where a search for its time ends. -/
theorem shot?_eq_some_iff {source : SampleSource} :
    shot? samples start step i = some source ↔
      ∃ place time, source = .recorded place time ∧ time.toNat = exactTime start step i ∧
        lookup samples 0 time = .ok place := by
  unfold shot?
  simp only [Option.bind_eq_some_iff, Option.map_eq_some_iff, frameTime?_eq_some_iff]
  constructor
  · rintro ⟨time, htime, place, hfound, rfl⟩
    cases hlookup : lookup samples 0 time with
    | error e =>
        rw [hlookup] at hfound
        cases hfound
    | ok place' =>
        rw [hlookup] at hfound
        cases hfound
        exact ⟨_, time, rfl, htime, hlookup⟩
  · rintro ⟨place, time, rfl, htime, hlookup⟩
    refine ⟨time, htime, place, ?_, rfl⟩
    rw [hlookup]
    rfl

/-- A frame shows the first sample that is later than its time, the very first apart. -/
theorem isLeast_of_lookup (h : lookup samples 0 time = .ok place) :
    IsLeast {j | 1 ≤ j ∧ ∃ s, samples[j]? = some s ∧ time.toNat < s.time.toNat} place := by
  obtain ⟨-, -, hpos, ⟨s, hs, hlater⟩, hbefore⟩ := lookup_eq_ok_iff.mp h
  constructor
  · exact ⟨hpos, s, hs, UInt64.lt_iff_toNat_lt.mp hlater⟩
  · rintro j ⟨hj, r, hr, hlt⟩
    by_contra hplace
    have hle := hbefore j r hj (by omega) hr
    exact absurd (UInt64.le_iff_toNat_le.mp hle) (Nat.not_le.mpr hlt)

/-- **There is a frame for every time before that of the last sample**, if there is more than one
sample. That time can be told, as the last sample has one that is later. -/
theorem isSome_shot?_iff (hlast : samples.getLast? = some last) :
    (shot? samples start step i).isSome
      ↔ 1 < samples.length ∧ exactTime start step i < last.time.toNat := by
  rw [Option.isSome_iff_exists]
  constructor
  · rintro ⟨source, hsource⟩
    obtain ⟨place, time, -, htime, hfound⟩ := shot?_eq_some_iff.mp hsource
    obtain ⟨-, ⟨last', hlast', hinside⟩, hpos, ⟨s, hs, -⟩, -⟩ := lookup_eq_ok_iff.mp hfound
    obtain rfl := Option.some.inj (hlast.symm.trans hlast')
    have hplace := (List.getElem?_eq_some_iff.mp hs).1
    rw [← htime]
    exact ⟨by omega, UInt64.lt_iff_toNat_lt.mp hinside⟩
  · rintro ⟨htwo, hinside⟩
    have htime : (exactTime start step i).toUInt64.toNat = exactTime start step i :=
      UInt64.toNat_ofNat_of_lt (Nat.lt_trans hinside last.time.toNat_lt)
    rw [← htime] at hinside
    have hfront : 0 < samples.length := by omega
    obtain ⟨place, hfound⟩ :=
      exists_lookup_eq_ok hfront htwo hlast (UInt64.lt_iff_toNat_lt.mpr hinside)
    exact ⟨_, shot?_eq_some_iff.mpr ⟨place, _, rfl, htime, hfound⟩⟩

/-- As many frames are planned as are asked for and lie inside the recording. -/
theorem lt_length_plan_iff_inside (hlast : samples.getLast? = some last) :
    k < (plan samples start step 0 n).length
      ↔ k < n ∧ 1 < samples.length ∧ exactTime start step k < last.time.toNat := by
  rw [lt_length_plan_iff]
  apply and_congr_right
  intro hk
  simp only [Nat.zero_add, isSome_shot?_iff hlast]
  constructor
  · intro hall
    exact hall k (Nat.le_refl k)
  · rintro ⟨htwo, hinside⟩ j hj
    exact ⟨htwo, Nat.lt_of_le_of_lt (exactTime_mono start step hj) hinside⟩

/-! ## The number of frames -/

/-- The numbers below a bound that have a property are counted, if it goes over to smaller ones. -/
theorem eq_min_encard {P : ℕ → Prop} (hdown : ∀ i j, i ≤ j → P j → P i)
    (hk : ∀ i, i < k ↔ i < n ∧ P i) : (k : ℕ∞) = min (n : ℕ∞) {i | P i}.encard := by
  have hkn : k ≤ n := by
    apply Nat.le_of_not_lt
    intro hlt
    exact absurd ((hk n).mp hlt).1 (Nat.lt_irrefl n)
  rcases Nat.eq_or_lt_of_le hkn with rfl | hlt
  · -- All numbers below the bound have the property.
    have hsub : {i | i < k} ⊆ {i | P i} := by
      intro i hi
      exact ((hk i).mp hi).2
    have hle := Set.encard_le_encard hsub
    rw [Set.Nat.encard_range] at hle
    exact (min_eq_left hle).symm
  · -- The property ends below the bound.
    have hset : {i | P i} = {i | i < k} := by
      ext i
      constructor
      · intro hi
        apply Nat.lt_of_not_le
        intro hle
        exact absurd ((hk k).mpr ⟨hlt, hdown k i hle hi⟩) (Nat.lt_irrefl k)
      · intro hi
        exact ((hk i).mp hi).2
    rw [hset, Set.Nat.encard_range]
    exact (min_eq_right (Nat.cast_le.mpr hkn)).symm

/-! ## The main theorem -/

/-- **A film covers its recording.** Take any recording with some sample, in order or not, whatever
its strategy, and any first time and step. The film that is made of it is one take after the other of
sources that do not depend on what becomes of any of them. There are as many as are asked for, but no
more than there are times of frames, counted without a bound, before that of the last sample, and none
if that is the only one. The `i`-th one is taken at its time, and shows the first sample later than
it, the very first apart. Every one is counted. -/
theorem film_covers_recording {registry : Registry} {settings : Settings} {ctx : Context}
    (h : Context.create registry settings samples = .ok ctx)
    (hlast : samples.getLast? = some last) (r : RenderRequest) :
    ∃ sources : List SampleSource,
      (sources.length : ℕ∞) = min (r.frames : ℕ∞)
        (if samples.length = 1 then 0
          else {i : ℕ | r.start.toNat + i * r.step.toNat < last.time.toNat}.encard) ∧
      (∀ i source, sources[i]? = some source →
        ∃ place time, source = .recorded place time ∧
          time.toNat = r.start.toNat + i * r.step.toNat ∧
          IsLeast {j | 1 ≤ j ∧ ∃ s, samples[j]? = some s ∧ time.toNat < s.time.toNat} place) ∧
      ∀ (m : Type → Type) [Monad m] [LawfulMonad m] [Host m] (canvas : Raster),
        (renderFilm r ctx canvas : m Report) = (do
          match ← FrameWriter.create r.folder "hud_" with
          | .error reason => return { failure := some (.create r.folder reason) }
          | .ok writer =>
            let film : Film := { context := ctx, canvas := canvas, writer := some writer }
            return (← film.takes sources).report r.folder) ∧
        ∀ writer : Option FrameWriter,
          SatisfiesM (fun drawn => drawn.session.frames = sources.length)
            (takes { context := ctx, canvas := canvas, writer := writer } sources : m Film) := by
  have hsamples : ctx.view.samples = samples := by rw [Context.view_of_create h]
  refine ⟨plan samples r.start r.step 0 r.frames, ?_, ?_, ?_⟩
  · have hcount := eq_min_encard (k := (plan samples r.start r.step 0 r.frames).length)
      (P := fun i => 1 < samples.length ∧ exactTime r.start r.step i < last.time.toNat)
      (fun i j hij ⟨htwo, hinside⟩ =>
        ⟨htwo, Nat.lt_of_le_of_lt (exactTime_mono _ _ hij) hinside⟩)
      (fun i => lt_length_plan_iff_inside hlast)
    have hne : samples ≠ [] := by
      rintro rfl
      cases hlast
    have hpos := List.length_pos_of_ne_nil hne
    rw [hcount]
    congr 1
    split
    · next hone =>
        rw [Set.encard_eq_zero, Set.eq_empty_iff_forall_notMem]
        rintro i ⟨htwo, -⟩
        omega
    · next hone =>
        congr 1
        ext i
        exact and_iff_right (by omega)
  · intro i source hsource
    have hshot := shot?_of_getElem?_plan hsource
    rw [Nat.zero_add] at hshot
    obtain ⟨place, time, hrecorded, htime, hfound⟩ := shot?_eq_some_iff.mp hshot
    exact ⟨place, time, hrecorded, htime, isLeast_of_lookup hfound⟩
  · intro m _ _ _ canvas
    constructor
    · unfold renderFilm
      apply bind_congr
      intro created
      cases created with
      | error reason => rfl
      | ok writer =>
          dsimp only
          rw [addFrames_eq_takes _ (Context.sound_of_create h), hsamples]
    · intro writer
      refine (satisfiesM_takes _ _).imp fun {drawn} hframes => ?_
      rw [hframes]
      exact Nat.zero_add _

/-- A recording up to the last time that can be told. -/
def wholeDay : List (Sample Float) :=
  [Context.reading 0, Context.reading 9223372036854775808, Context.reading 18446744073709551615]

/-- Frames at steps of which three lead past the last time that can be told. -/
def wideSteps : RenderRequest where
  data := "ride.bin"
  config := "hud.toml"
  start := 5
  width := 64
  height := 48
  out := "hud.png"
  frames := 4
  step := 9223372036854775808
  folder := "frames"

/-- Two frames are made, and the second one shows the last sample. -/
theorem film_of_wideSteps :
    Context.create .usual {} wholeDay = .ok (Context.plain wholeDay) ∧
      wholeDay.getLast? = some (Context.reading 18446744073709551615) ∧
      ∃ sources : List SampleSource, sources.length = 2 ∧
        sources[1]? = some (.recorded 2 9223372036854775813) ∧
        ∀ (canvas : Raster) (input : Wire.Source) (disk : Disk),
          let film : Film := { context := Context.plain wholeDay, canvas := canvas, writer := none }
          ((film.takes sources : Rehearsal Film) input disk).1.session.frames = 2 := by
  have hcreate : Context.create .usual {} wholeDay = .ok (Context.plain wholeDay) := rfl
  have hlast : wholeDay.getLast? = some (Context.reading 18446744073709551615) := rfl
  obtain ⟨sources, hcount, hshown, hfilm⟩ := film_covers_recording hcreate hlast wideSteps
  -- Of the times of frames only the first two are before that of the last sample.
  have hinside : {i : ℕ | 5 + i * 9223372036854775808 < 18446744073709551615} = {i | i < 2} := by
    ext i
    rw [Set.mem_ofPred_eq, Set.mem_ofPred_eq]
    omega
  have htwo : sources.length = 2 := by
    have hmin : (sources.length : ℕ∞) = min ((4 : ℕ) : ℕ∞)
        {i : ℕ | 5 + i * 9223372036854775808 < 18446744073709551615}.encard := hcount
    have hle : ((2 : ℕ) : ℕ∞) ≤ (4 : ℕ) := Nat.cast_le.mpr (by decide)
    rw [hinside, Set.Nat.encard_range, min_eq_right hle] at hmin
    exact Nat.cast_inj.mp hmin
  have hsecond := List.getElem?_eq_getElem (l := sources) (i := 1) (by omega)
  obtain ⟨place, time, hsource, htime, ⟨hpos, s, hs, hlater⟩, hleast⟩ := hshown 1 _ hsecond
  have htime' : time = 9223372036854775813 := UInt64.toNat_inj.mp htime
  subst htime'
  have hplace : place = 2 := by
    have hle : place ≤ 2 := hleast ⟨by decide, Context.reading 18446744073709551615, rfl, by decide⟩
    have hne : place ≠ 1 := by
      rintro rfl
      cases hs
      exact absurd hlater (by decide)
    omega
  refine ⟨hcreate, hlast, sources, htwo, ?_, ?_⟩
  · rw [hsecond, hsource, hplace]
  · intro canvas input disk
    obtain ⟨-, hframes⟩ := hfilm Rehearsal canvas
    have hcounted := of_satisfiesM_rehearsal (hframes none) input disk
    exact hcounted.trans htwo

end RideHud.Console.Film
