import Mathlib
import RideHud.Proofs.Exact
import RideHud.Proofs.Stats.Running
import RideHud.Stats.Session

/-!
# What a session tells

A session is told of frames and samples in any order and may be started anew. What it says at any
time is about what happened since it was last started, and nothing is counted twice or forgotten
(`session_balances`): frames and samples are each counted by a counter and by running statistics,
and every sample but the first one either ends an interval or is older than the one before it.

* `accounts_ofEvents`: each counter and each of the statistics, told by lists;
* `Accounts.intervals_add_backward`: intervals and samples that are older make up the steps.
-/

namespace RideHud

open scoped Scalar

namespace Session

/-! ## Events -/

/-- What can happen to a session. -/
inductive Event (α : Type) where
  | frame (outcome : FrameOutcome) (millis : α)
  | sample (s : Sample α)
  /-- The session starts anew. -/
  | restart

namespace Event

variable {α : Type}

/-- The outcome of a frame and how long it took. -/
def frame? : Event α → Option (FrameOutcome × α)
  | frame outcome millis => some (outcome, millis)
  | _ => none

/-- A sample that came in. -/
def sample? : Event α → Option (Sample α)
  | sample s => some s
  | _ => none

/-- Whether the session starts anew. -/
def isRestart : Event α → Bool
  | restart => true
  | _ => false

/-- The events behind the last restart. -/
def recent (events : List (Event α)) : List (Event α) := events.rtakeWhile fun e => !e.isRestart

theorem recent_concat (events : List (Event α)) (e : Event α) :
    recent (events ++ [e]) = if e.isRestart then [] else recent events ++ [e] := by
  rw [recent, recent, List.rtakeWhile_concat]
  cases e.isRestart <;> rfl

end Event

section

variable {α : Type} [Elementary α]

/-- Tell a session of an event. -/
def record (s : Session α) : Event α → Session α
  | .frame outcome millis => s.addFrame outcome millis
  | .sample x => s.addSample x
  | .restart => .empty

/-- The session after some events. -/
def ofEvents (events : List (Event α)) : Session α := events.foldl record .empty

theorem ofEvents_concat (events : List (Event α)) (e : Event α) :
    ofEvents (events ++ [e]) = (ofEvents events).record e := by
  rw [ofEvents, ofEvents, List.foldl_append, List.foldl_cons, List.foldl_nil]

/-! ## Steps from a sample to the next one -/

/-- The samples that follow each other. -/
def steps (samples : List (Sample α)) : List (Sample α × Sample α) := samples.zip samples.tail

/-- Whether a step leads back in time. -/
def leadsBack (step : Sample α × Sample α) : Bool := step.2.time < step.1.time

/-- The length of a step in time, in microseconds. -/
def interval (step : Sample α × Sample α) : α := Nat.cast (step.2.time.toNat - step.1.time.toNat)

omit [Elementary α] in
/-- A sample more is one step more, from the sample that was the last one. -/
theorem steps_concat (samples : List (Sample α)) (s : Sample α) :
    steps (samples ++ [s]) = steps samples ++ (samples.getLast?.map (·, s)).toList := by
  induction samples with
  | nil => rfl
  | cons a samples ih =>
      cases samples with
      | nil => rfl
      | cons b samples =>
          have hlast : (a :: b :: samples).getLast? = (b :: samples).getLast? := rfl
          rw [hlast]
          exact congrArg ((a, b) :: ·) ih

omit [Elementary α] in
/-- There is one step less than there are samples. -/
theorem length_steps (samples : List (Sample α)) : (steps samples).length = samples.length - 1 := by
  rw [steps, List.length_zip, List.length_tail, Nat.min_eq_right (Nat.sub_le _ 1)]

/-- Times that do not lead back differ by as much as their numbers. -/
theorem toScalar_sub {s t : Micros} (h : ¬t < s) :
    ((t - s).toScalar : α) = Nat.cast (t.toNat - s.toNat) := by
  rw [Micros.toScalar, UInt64.toNat_sub_of_le _ _ (UInt64.not_lt.mp h)]

/-! ## Accounts -/

/-- The session tells of some frames and of some samples, in order. -/
structure Accounts (s : Session α) (frames : List (FrameOutcome × α)) (samples : List (Sample α)) :
    Prop where
  frames_eq : s.frames = frames.length
  emptyFrames_eq : s.emptyFrames = frames.countP (·.1 = .empty)
  failedFrames_eq : s.failedFrames = frames.countP (·.1 = .failed)
  renderMillis_eq : s.renderMillis = .ofList (frames.map Prod.snd)
  samples_eq : s.samples = samples.length
  backward_eq : s.backward = (steps samples).countP leadsBack
  intervals_eq : s.intervals
    = .ofList (((steps samples).filter fun step => !leadsBack step).map interval)
  loads_eq : s.loads = .ofList (samples.map Sample.load)
  lastTime_eq : s.lastTime = samples.getLast?.map Sample.time

variable {s : Session α} {frames : List (FrameOutcome × α)} {samples : List (Sample α)}

theorem accounts_empty : Accounts (.empty : Session α) [] [] :=
  ⟨rfl, rfl, rfl, rfl, rfl, rfl, rfl, rfl, rfl⟩

/-- A frame more is told of. -/
theorem Accounts.addFrame (h : Accounts s frames samples) (outcome : FrameOutcome) (millis : α) :
    Accounts (s.addFrame outcome millis) (frames ++ [(outcome, millis)]) samples where
  frames_eq := by
    rw [List.length_append, ← h.frames_eq]
    rfl
  emptyFrames_eq := by
    rw [List.countP_append, ← h.emptyFrames_eq, List.countP_singleton]
    simp only [Session.addFrame, decide_eq_true_eq]
  failedFrames_eq := by
    rw [List.countP_append, ← h.failedFrames_eq, List.countP_singleton]
    simp only [Session.addFrame, decide_eq_true_eq]
  renderMillis_eq := by
    rw [List.map_append, List.map_singleton, Running.ofList_concat, ← h.renderMillis_eq]
    rfl
  samples_eq := h.samples_eq
  backward_eq := h.backward_eq
  intervals_eq := h.intervals_eq
  loads_eq := h.loads_eq
  lastTime_eq := h.lastTime_eq

/-- A sample more is told of. -/
theorem Accounts.addSample (h : Accounts s frames samples) (x : Sample α) :
    Accounts (s.addSample x) frames (samples ++ [x]) where
  frames_eq := h.frames_eq
  emptyFrames_eq := h.emptyFrames_eq
  failedFrames_eq := h.failedFrames_eq
  renderMillis_eq := h.renderMillis_eq
  samples_eq := by
    rw [List.length_append, ← h.samples_eq]
    rfl
  backward_eq := by
    rw [steps_concat, List.countP_append, ← h.backward_eq, Session.addSample, h.lastTime_eq]
    cases samples.getLast? with
    | none => rfl
    | some last => simp [leadsBack]
  intervals_eq := by
    rw [steps_concat, List.filter_append, List.map_append, Session.addSample, h.lastTime_eq]
    cases samples.getLast? with
    | none => simpa using h.intervals_eq
    | some last =>
        by_cases hback : x.time < last.time
        · simpa [leadsBack, hback] using h.intervals_eq
        · -- The step does not lead back, so its length is pushed.
          simp only [Option.map_some, Option.any_some, hback, decide_false, Bool.false_eq_true,
            if_false, Option.toList_some, leadsBack, List.filter_cons, Bool.not_false, if_true,
            List.filter_nil, List.map_cons, List.map_nil, Running.ofList_concat]
          rw [h.intervals_eq, toScalar_sub hback]
          rfl
  loads_eq := by
    rw [List.map_append, List.map_singleton, Running.ofList_concat, ← h.loads_eq]
    rfl
  lastTime_eq := by
    rw [List.getLast?_concat]
    rfl

/-- **A session tells of what happened since it was last started**, whatever happened before. -/
theorem accounts_ofEvents (events : List (Event α)) :
    Accounts (ofEvents events) ((Event.recent events).filterMap Event.frame?)
      ((Event.recent events).filterMap Event.sample?) := by
  induction events using List.reverseRecOn with
  | nil => exact accounts_empty
  | append_singleton events e ih =>
      rw [ofEvents_concat, Event.recent_concat]
      cases e with
      | frame outcome millis =>
          have h := ih.addFrame outcome millis
          rw [← List.append_nil (List.filterMap Event.sample? _)] at h
          show Accounts _ (List.filterMap _ (Event.recent events ++ [_]))
            (List.filterMap _ (Event.recent events ++ [_]))
          rwa [List.filterMap_append, List.filterMap_append]
      | sample x =>
          have h := ih.addSample x
          rw [← List.append_nil (List.filterMap Event.frame? _)] at h
          show Accounts _ (List.filterMap _ (Event.recent events ++ [_]))
            (List.filterMap _ (Event.recent events ++ [_]))
          rwa [List.filterMap_append, List.filterMap_append]
      | restart => exact accounts_empty

/-! ## Balances -/

/-- No frame is both empty and failed. -/
theorem Accounts.empty_add_failed_le (h : Accounts s frames samples) :
    s.emptyFrames + s.failedFrames ≤ s.frames := by
  rw [h.emptyFrames_eq, h.failedFrames_eq, h.frames_eq]
  clear h
  induction frames with
  | nil => exact Nat.le_refl 0
  | cons frame frames ih =>
      obtain ⟨outcome, millis⟩ := frame
      cases outcome <;> simp <;> omega

/-- **Every sample but the first one ends an interval or is older than the one before it.** -/
theorem Accounts.intervals_add_backward (h : Accounts s frames samples) :
    s.intervals.count + s.backward = s.samples - 1 := by
  have hforward : (fun step : Sample α × Sample α => decide ¬leadsBack step = true)
      = fun step => !leadsBack step := by
    funext step
    cases leadsBack step <;> rfl
  rw [h.intervals_eq, h.backward_eq, h.samples_eq, Running.count_ofList, List.length_map,
    ← length_steps, List.length_eq_countP_add_countP leadsBack (l := steps samples), hforward,
    List.countP_eq_length_filter (p := fun step => !leadsBack step), Nat.add_comm]

end

/-! ## Failure rate -/

open scoped Exact in
/-- With exact arithmetic, the failure rate is the share of the frames that failed, in percent. -/
theorem failureRate_eq {K : Type} [DivisionRing K] [LinearOrder K] (s : Session K) :
    s.failureRate = if s.frames = 0 then 0 else 100 * (s.failedFrames : K) / s.frames := by
  unfold failureRate
  rcases Nat.eq_zero_or_pos s.frames with hzero | hpos
  · rw [if_neg (by omega), if_pos hzero]
    exact Exact.zero_eq
  · have hswap := (Nat.cast_commute 100 ((s.failedFrames : K) / s.frames)).eq
    rw [if_pos hpos, if_neg (by omega), mul_div_assoc]
    exact_mod_cast hswap.symm

open scoped Exact in
/-- No more than all frames fail. -/
theorem failureRate_mem_Icc {K : Type} [DivisionRing K] [LinearOrder K] [IsStrictOrderedRing K]
    {s : Session K} (h : s.failedFrames ≤ s.frames) : s.failureRate ∈ Set.Icc 0 100 := by
  have hle : (s.failedFrames : K) ≤ s.frames := Nat.cast_le.mpr h
  rw [failureRate_eq]
  split
  · exact ⟨le_refl 0, by norm_num⟩
  · next hframes =>
      have hpos : (0 : K) < s.frames := Nat.cast_pos.mpr (Nat.pos_of_ne_zero hframes)
      refine ⟨div_nonneg (mul_nonneg (by norm_num) (Nat.cast_nonneg _)) hpos.le, ?_⟩
      rw [div_le_iff₀ hpos]
      exact mul_le_mul_of_nonneg_left hle (by norm_num)

/-! ## The main theorem -/

/-- **The accounts of a session balance.** Take any frames, samples and restarts, in any order, and
look at what has happened since the last restart. The session has counted the frames, those that were
empty and those that failed, and the samples; the running statistics are those of how long the
frames took and of how strong the acceleration was, with as many values as there are frames and
samples. A sample that is older than the one before it is counted as such, and the statistics of
intervals are those of the other steps, in order, so that together they make up all steps. No frame
is both empty and failed.

With exact arithmetic, the failure rate is the share of the frames that failed, between 0 and 100
percent, and zero without frames. -/
theorem session_balances :
    (∀ (α : Type) [Elementary α] (events : List (Event α)),
      let s := ofEvents events
      let frames := (Event.recent events).filterMap Event.frame?
      let samples := (Event.recent events).filterMap Event.sample?
      Accounts s frames samples ∧
        s.frames = s.renderMillis.count ∧ s.emptyFrames + s.failedFrames ≤ s.frames ∧
        s.samples = s.loads.count ∧ s.intervals.count + s.backward = s.samples - 1) ∧
    ∀ (K : Type) [DivisionRing K] [LinearOrder K] [IsStrictOrderedRing K] (f : Exact.Functions K)
      (events : List (Event K)),
      letI := Exact.elementary f
      let s := ofEvents events
      s.failureRate ∈ Set.Icc 0 100 ∧
        s.failureRate = if s.frames = 0 then 0 else 100 * (s.failedFrames : K) / s.frames := by
  refine ⟨fun α _ events => ?_, fun K _ _ _ f events => ?_⟩
  · have h := accounts_ofEvents events
    refine ⟨h, ?_, h.empty_add_failed_le, ?_, h.intervals_add_backward⟩
    · rw [h.renderMillis_eq, Running.count_ofList, List.length_map, h.frames_eq]
    · rw [h.loads_eq, Running.count_ofList, List.length_map, h.samples_eq]
  · let _ := Exact.elementary f
    have hle := (accounts_ofEvents events).empty_add_failed_le
    exact ⟨failureRate_mem_Icc (by omega), failureRate_eq _⟩

/-- A sample that tells nothing but its time. -/
def instant (time : Micros) : Sample ℝ := ⟨time, ⟨0, 0, 1⟩, ⟨0, 0, 0⟩, ⟨0, 0, 0⟩, 0, 0, ⟨1, 0, 0, 0⟩⟩

/-- After a restart, five samples of which the fourth is older than the third, among four frames of
which one fails and one is empty. -/
def unsteady : List (Event ℝ) :=
  [.frame .failed 9, .sample (instant 7), .restart, .sample (instant 0), .frame .rendered 5,
    .sample (instant 10000), .frame .empty 1, .sample (instant 20000), .sample (instant 15000),
    .frame .failed 3, .sample (instant 30000), .frame .rendered 5]

/-- Over the real numbers, a quarter of the frames failed, and of four steps one leads back. -/
theorem session_of_unsteady :
    letI := Exact.elementary Exact.real
    let s := ofEvents unsteady
    s.frames = 4 ∧ s.renderMillis.count = 4 ∧ s.failureRate = 25 ∧ s.samples = 5 ∧
      s.backward = 1 ∧ s.intervals = .ofList [10000, 10000, 15000] := by
  let _ := Exact.elementary Exact.real
  obtain ⟨hcounts, hrates⟩ := session_balances
  obtain ⟨haccounts, hframes, -⟩ := hcounts ℝ unsteady
  obtain ⟨-, hrate⟩ := hrates ℝ Exact.real unsteady
  refine ⟨rfl, hframes.symm, ?_, rfl, rfl, ?_⟩
  · rw [hrate, if_neg (by decide)]
    show 100 * ((1 : ℕ) : ℝ) / (4 : ℕ) = 25
    norm_num
  · refine haccounts.intervals_eq.trans (congrArg _ ?_)
    show [((10000 : ℕ) : ℝ), ((10000 : ℕ) : ℝ), ((15000 : ℕ) : ℝ)] = _
    norm_num

end Session

end RideHud
