import Mathlib
import RideHud.Console.Findings
import RideHud.Console.Host
import RideHud.Console.Summary
import RideHud.Proofs.Intake.Batch
import RideHud.Proofs.Wire.Load

/-!
# The span of a recording

A summary tells the time from the first sample of a recording to the last one. Where the last one
comes before the first one, the difference runs below zero and the program breaks off, when the
samples are loaded and again when they are summed up (`summary_tells_span`). Settings see to it that
this does not happen, as the intake refuses recordings that run back in time
(`ordered_of_someSamplesFound`), but a recording that is read without settings is as its bytes say
(`loadBytes_encode`).
-/

namespace RideHud.Console

open Intake Timeline Wire

/-! ## Bytes -/

/-- From a place on, the bytes are collected behind those before them. -/
theorem toList_loop_eq (bytes : ByteArray) (i : ℕ) (seen : List UInt8) :
    ByteArray.toList.loop bytes i seen = seen.reverse ++ bytes.data.toList.drop i := by
  induction hleft : bytes.size - i generalizing i seen with
  | zero =>
      have hend : ¬i < bytes.size := by omega
      have hdrop : bytes.data.toList.drop i = [] :=
        List.drop_eq_nil_of_le (by rw [Array.length_toList]; exact Nat.not_lt.mp hend)
      rw [ByteArray.toList.loop, if_neg hend, hdrop, List.append_nil]
  | succ n ih =>
      have hlt : i < bytes.size := by omega
      have hdrop : bytes.data.toList.drop i = bytes.get! i :: bytes.data.toList.drop (i + 1) := by
        rw [List.drop_eq_getElem_cons (by rw [Array.length_toList]; exact hlt)]
        congr 1
        exact (getElem!_pos bytes.data i hlt).symm
      rw [ByteArray.toList.loop, if_pos hlt, ih _ _ (by omega), hdrop, List.reverse_cons,
        List.append_assoc, List.singleton_append]

/-- Bytes are read in the order in which they are stored. -/
theorem toList_toArray (bs : List UInt8) : (ByteArray.mk bs.toArray).toList = bs := by
  rw [ByteArray.toList, toList_loop_eq]
  rfl

/-! ## Results one after the other -/

theorem exists_of_bind_eq_ok {ε α β : Type} {x : Except ε α} {f : α → Except ε β} {b : β}
    (h : (x >>= f) = .ok b) : ∃ a, x = .ok a ∧ f a = .ok b := by
  cases x with
  | error e => cases h
  | ok a => exact ⟨a, rfl, h⟩

theorem cases_of_bind_eq_error {ε α β : Type} {x : Except ε α} {f : α → Except ε β} {e : ε}
    (h : (x >>= f) = .error e) : x = .error e ∨ ∃ a, x = .ok a ∧ f a = .error e := by
  cases x with
  | error e' =>
      cases h
      exact .inl rfl
  | ok a => exact .inr ⟨a, rfl, h⟩

theorem exists_of_mapError_eq_error {ε ε' α : Type} {x : Except ε α} {f : ε → ε'} {e' : ε'}
    (h : x.mapError f = .error e') : ∃ e, x = .error e ∧ f e = e' := by
  cases x with
  | error e =>
      cases h
      exact ⟨e, rfl, rfl⟩
  | ok a => cases h

/-! ## The time between two samples -/

/-- The time from one time to another is what has to be added. -/
theorem duration_of_le {start stop : Micros} (h : start ≤ stop) :
    ∃ span, duration start stop = .ok span ∧ start.toNat + span.toNat = stop.toNat := by
  refine ⟨stop - start, ?_, ?_⟩
  · rw [duration, Micros.since?, if_neg (UInt64.not_lt.mpr h)]
  · rw [UInt64.toNat_sub_of_le _ _ h]
    exact Nat.add_sub_cancel' (UInt64.le_iff_toNat_le.mp h)

/-- There is none back. -/
theorem duration_of_lt {start stop : Micros} (h : stop < start) :
    duration start stop = .error .overflow := by
  rw [duration, Micros.since?, if_pos h]

variable {samples : List (Sample Float)} {first last : Sample Float}

theorem spanOf_eq (hfirst : samples.head? = some first) (hlast : samples.getLast? = some last) :
    spanOf samples = duration first.time last.time := by
  rw [spanOf, hfirst, hlast]

/-- Samples that span a time do so from the first one to the last one. -/
theorem le_of_spanOf {span : Micros} (h : spanOf samples = .ok span)
    (hfirst : samples.head? = some first) (hlast : samples.getLast? = some last) :
    first.time ≤ last.time := by
  rw [spanOf_eq hfirst hlast] at h
  by_contra hle
  rw [duration_of_lt (UInt64.not_le.mp hle)] at h
  cases h

/-- Of samples in order, the last one is not older than the first one. -/
theorem time_le_of_ordered (h : Ordered samples) (hfirst : samples.head? = some first)
    (hlast : samples.getLast? = some last) : first.time ≤ last.time := by
  cases samples with
  | nil => cases hfirst
  | cons s ss =>
      cases hfirst
      rcases List.mem_cons.mp (List.mem_of_getLast? hlast) with rfl | hmem
      · exact UInt64.le_refl _
      · exact (List.pairwise_cons.mp h).1 last hmem

/-- Samples in order span a time. -/
theorem spanOf_ne_error_of_ordered (h : Ordered samples) (e : Failure) :
    spanOf samples ≠ .error e := by
  intro hspan
  cases samples with
  | nil => cases hspan
  | cons s ss =>
      have hlast := List.getLast?_eq_some_getLast (List.cons_ne_nil s ss)
      obtain ⟨span, hdone, -⟩ := duration_of_le (time_le_of_ordered h rfl hlast)
      rw [spanOf_eq rfl hlast, hdone] at hspan
      cases hspan

/-! ## Samples that are found -/

variable {path : String} {settings : Option Settings} {found : Found}

/-- **All samples can be recorded**, in whatever order of time, and are loaded as they were. -/
theorem loadBytes_encode (recorded : List (RawSample × UInt64)) :
    loadBytes (recorded.flatMap fun y => encode y.1 y.2) = .ok (recorded.map Prod.fst) := by
  have hlive : ∀ bs : List UInt8, (Source.live [.data bs]).bytes = bs ∧
      (Source.close [.data bs]).failure? = none := by
    intro bs
    cases bs with
    | nil => exact ⟨rfl, rfl⟩
    | cons b bs => exact ⟨List.append_nil _, rfl⟩
  obtain ⟨-, -, hload⟩ := load_determined .patient
    [.data (recorded.flatMap fun y => encode y.1 y.2)]
  exact hload recorded (hlive _).1 (hlive _).2 fun _ _ _ => rfl

/-- **Without settings, the samples of a file are those of its frames**, unless the last one comes
before the first one. -/
theorem someSamplesFound_file {content : ByteArray} {raw : List RawSample}
    (hraw : loadBytes content.toList = .ok raw)
    (hfirst : (raw.map RawSample.measured).head? = some first)
    (hlast : (raw.map RawSample.measured).getLast? = some last) :
    someSamplesFound path none (.file content)
      = if first.time ≤ last.time then .ok (raw.map RawSample.measured) else .error .overflow := by
  have hfound : samplesFound path none (.file content)
      = (spanOf (raw.map RawSample.measured)).map fun _ => raw.map RawSample.measured := by
    show ((loadBytes content.toList).mapError _ >>= fun raw => _) = _
    rw [hraw]
    show (spanOf (raw.map RawSample.measured) >>= fun _ => _) = _
    cases spanOf (raw.map RawSample.measured) <;> rfl
  have hne : (raw.map RawSample.measured).isEmpty = false := by
    rw [List.isEmpty_eq_false_iff]
    rintro hnil
    rw [hnil] at hfirst
    cases hfirst
  rw [someSamplesFound, hfound, spanOf_eq hfirst hlast]
  by_cases hle : first.time ≤ last.time
  · obtain ⟨span, hspan, -⟩ := duration_of_le hle
    rw [hspan, if_pos hle]
    show (if (raw.map RawSample.measured).isEmpty then _ else _) = _
    rw [hne]
    rfl
  · rw [duration_of_lt (UInt64.not_le.mp hle), if_neg hle]
    rfl

/-- What is taken in under settings is in order, since other recordings are refused. -/
theorem ordered_of_takenIn {settings : Settings} {raw : List (Sample Float)}
    (h : takenIn path (some settings) raw = .ok samples) : Ordered samples := by
  obtain ⟨hfail, hback | ⟨kept, hkept, hordered, -⟩⟩ := processAll_keeps_order settings raw
  · obtain ⟨i, a, b, hstep, hfirst⟩ := exists_first_stepsBack hback
    rw [takenIn, (hfail _).mpr ⟨i, a, b, hstep, hfirst, rfl⟩] at h
    cases h
  · rw [takenIn, hkept] at h
    cases h
    exact hordered

/-- What is found was taken in, and spans a time. -/
theorem exists_of_samplesFound (h : samplesFound path settings found = .ok samples) :
    (∃ raw, takenIn path settings raw = .ok samples) ∧ ∃ span, spanOf samples = .ok span := by
  obtain ⟨source, -, h⟩ := exists_of_bind_eq_ok h
  obtain ⟨raw, -, h⟩ := exists_of_bind_eq_ok h
  obtain ⟨kept, hkept, h⟩ := exists_of_bind_eq_ok h
  obtain ⟨span, hspan, h⟩ := exists_of_bind_eq_ok h
  cases h
  exact ⟨⟨_, hkept⟩, span, hspan⟩

/-- There are samples among those that are found. -/
theorem samplesFound_of_someSamplesFound (h : someSamplesFound path settings found = .ok samples) :
    samplesFound path settings found = .ok samples ∧ samples ≠ [] := by
  obtain ⟨samples', hfound, h⟩ := exists_of_bind_eq_ok h
  cases samples' with
  | nil => cases h
  | cons s ss =>
      cases h
      exact ⟨hfound, List.cons_ne_nil s ss⟩

/-- **What is found under settings is in order.** -/
theorem ordered_of_someSamplesFound {settings : Settings}
    (h : someSamplesFound path (some settings) found = .ok samples) : Ordered samples := by
  obtain ⟨⟨raw, hraw⟩, -⟩ := exists_of_samplesFound (samplesFound_of_someSamplesFound h).1
  exact ordered_of_takenIn hraw

/-- Under settings, the program does not break off. -/
theorem someSamplesFound_ne_overflow (settings : Settings) :
    someSamplesFound path (some settings) found ≠ .error .overflow := by
  intro h
  rcases cases_of_bind_eq_error h with h | ⟨samples, -, h⟩
  · rcases cases_of_bind_eq_error h with h | ⟨source, -, h⟩
    · cases found <;> cases h
    rcases cases_of_bind_eq_error h with h | ⟨raw, -, h⟩
    · obtain ⟨e, -, he⟩ := exists_of_mapError_eq_error h
      cases he
    rcases cases_of_bind_eq_error h with h | ⟨kept, hkept, h⟩
    · obtain ⟨e, -, he⟩ := exists_of_mapError_eq_error h
      cases he
    rcases cases_of_bind_eq_error h with h | ⟨span, -, h⟩
    · -- The samples are in order, so the span can be measured.
      exact spanOf_ne_error_of_ordered (ordered_of_takenIn hkept) _ h
    · cases h
  · split at h <;> cases h

/-! ## The main theorem -/

/-- The report of a summary. -/
def Summary.report (json : Bool) (told : Summary) : Output :=
  if json then .json told.toJson else .lines told.toLines

/-- The times of a summary are those of the first sample and the last one. -/
theorem Summary.exists_ofSamples {span : Micros} (path : String) (settings : Option Settings)
    (hfirst : samples.head? = some first) (hlast : samples.getLast? = some last)
    (hspan : duration first.time last.time = .ok span) :
    ∃ told, Summary.ofSamples path settings samples = .ok told ∧ told.start = first.time ∧
      told.stop = last.time ∧ told.span = span := by
  unfold Summary.ofSamples
  rw [hfirst, hlast]
  dsimp only [Option.map_some, Option.getD_some]
  rw [hspan]
  exact ⟨_, rfl, rfl, rfl, rfl⟩

/-- The report of findings. -/
def Findings.report (json : Bool) (told : Findings) : Output :=
  if json then .json told.toJson else .lines told.toLines

variable {m : Type → Type} [Monad m] [LawfulMonad m] [Storage m]

/-- **The span of a recording is told unless it ends before it starts.** A summary without settings
reports why there are no samples, or sums up those that are found; an analysis is of the same
samples. If a file is a recording, then its samples are found exactly if the last one does not come
before the first one; otherwise the program breaks off. Every series of samples is recorded by some
file, in whatever order of time. Under settings, the program does not break off.

Whatever is found can be summed up, and the summary tells the first time, the last time, and the time
between them. -/
theorem summary_tells_span (path : String) :
    (∀ json, (summarize path none json : m Report) = (fun found => Report.ofResult
      ((someSamplesFound path none found >>= Summary.ofSamples path none).map
        (Summary.report json))) <$> Storage.find path) ∧
    (∀ r : AnalysisRequest, (analyze r : m Report) = (fun found => Report.ofResult
      ((someSamplesFound r.data none found >>= Findings.ofSamples r).map
        (Findings.report r.json))) <$> Storage.find r.data) ∧
    (∀ recorded : List (RawSample × UInt64),
      loadBytes (recorded.flatMap fun y => encode y.1 y.2) = .ok (recorded.map Prod.fst)) ∧
    (∀ content raw first last, loadBytes content.toList = .ok raw →
      (raw.map RawSample.measured).head? = some first →
      (raw.map RawSample.measured).getLast? = some last →
      someSamplesFound path none (.file content)
        = if first.time ≤ last.time then .ok (raw.map RawSample.measured)
          else .error .overflow) ∧
    (∀ settings found, someSamplesFound path (some settings) found ≠ .error .overflow) ∧
    ∀ settings found samples, someSamplesFound path settings found = .ok samples →
      ∃ first last told, samples.head? = some first ∧ samples.getLast? = some last ∧
        Summary.ofSamples path settings samples = .ok told ∧
        told.start = first.time ∧ told.stop = last.time ∧
        told.start.toNat + told.span.toNat = told.stop.toNat := by
  refine ⟨fun json => ?_, fun r => ?_, loadBytes_encode,
    fun content raw first last hraw hfirst hlast => someSamplesFound_file hraw hfirst hlast,
    fun settings found => someSamplesFound_ne_overflow settings, fun settings found samples h => ?_⟩
  · simp only [summarize, loadSamples, pure_bind, bind_assoc, map_eq_pure_bind]
    refine bind_congr fun found => congrArg _ ?_
    cases someSamplesFound path none found with
    | error e => rfl
    | ok samples =>
        show Report.ofResult (Summary.ofSamples path none samples >>= _)
          = Report.ofResult ((Summary.ofSamples path none samples).map _)
        cases Summary.ofSamples path none samples <;> rfl
  · simp only [analyze, loadSamples, bind_assoc, pure_bind, map_eq_pure_bind]
    refine bind_congr fun found => congrArg _ ?_
    cases someSamplesFound r.data none found with
    | error e => rfl
    | ok samples => cases Findings.ofSamples r samples <;> rfl
  · obtain ⟨hfound, hne⟩ := samplesFound_of_someSamplesFound h
    obtain ⟨-, _, hspan⟩ := exists_of_samplesFound hfound
    have hfirst := List.head?_eq_some_head hne
    have hlast := List.getLast?_eq_some_getLast hne
    obtain ⟨span, hdone, hadds⟩ := duration_of_le (le_of_spanOf hspan hfirst hlast)
    obtain ⟨told, htold, hstart, hstop, hbetween⟩ :=
      Summary.exists_ofSamples path settings hfirst hlast hdone
    refine ⟨_, _, told, hfirst, hlast, htold, hstart, hstop, ?_⟩
    rw [hstart, hstop, hbetween]
    exact hadds

/-- Two samples, two microseconds apart. -/
def forth : List (RawSample × UInt64) := [({ oddSample with time := 3 }, 3), (oddSample, 5)]

/-- The same samples the other way round. -/
def back : List (RawSample × UInt64) := forth.reverse

/-- The bytes of a recording. -/
def tape (recorded : List (RawSample × UInt64)) : ByteArray :=
  ⟨(recorded.flatMap fun y => encode y.1 y.2).toArray⟩

/-- A recording that goes forth is told with its span. -/
theorem span_of_forth :
    loadBytes (tape forth).toList = .ok (forth.map Prod.fst) ∧
      ∃ samples told, someSamplesFound "ride.bin" none (.file (tape forth)) = .ok samples ∧
        Summary.ofSamples "ride.bin" none samples = .ok told ∧ told.span = 2 := by
  obtain ⟨-, -, hload, hfile, -, hspan⟩ := summary_tells_span (m := Rehearsal) "ride.bin"
  have hraw : loadBytes (tape forth).toList = .ok (forth.map Prod.fst) := by
    rw [tape, toList_toArray]
    exact hload forth
  have hfound := hfile (tape forth) _ _ _ hraw rfl rfl
  rw [if_pos (by decide)] at hfound
  obtain ⟨first, last, told, hfirst, hlast, htold, hstart, hstop, hadds⟩ := hspan none _ _ hfound
  refine ⟨hraw, _, told, hfound, htold, ?_⟩
  cases hfirst
  cases hlast
  rw [hstart, hstop] at hadds
  exact UInt64.toNat_inj.mp (Nat.add_left_cancel (n := 3) hadds)

/-- A recording that comes back is loaded, but the difference of its times runs below zero. So the
program breaks off, where it loads the samples and where it sums them up. -/
theorem span_of_back :
    ∃ raw first last, loadBytes (tape back).toList = .ok raw ∧
      (raw.map RawSample.measured).head? = some first ∧
      (raw.map RawSample.measured).getLast? = some last ∧
      first.time = 5 ∧ last.time = 3 ∧ ¬first.time ≤ last.time ∧
      someSamplesFound "ride.bin" none (.file (tape back)) = .error .overflow ∧
      Summary.ofSamples "ride.bin" none (raw.map RawSample.measured) = .error .overflow := by
  have hraw : loadBytes (tape back).toList = .ok (back.map Prod.fst) := by
    rw [tape, toList_toArray]
    exact loadBytes_encode back
  refine ⟨_, _, _, hraw, rfl, rfl, rfl, rfl, by decide, ?_, rfl⟩
  rw [someSamplesFound_file hraw rfl rfl]
  exact if_neg (by decide)

end RideHud.Console
