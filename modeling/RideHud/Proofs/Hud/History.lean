import RideHud.Draw.Recording
import RideHud.Hud.Context
import RideHud.Proofs.Timeline.Lookup

/-!
# Requests to a HUD

A HUD is asked for times, given samples and made to draw frames, in any order. Each request that
succeeds decides alone which sample is current, and one that fails changes nothing (`view_serve`).
The place that a search found stays in the source and is where the next search starts; as no sample
before it is later than the time it was found for (`Resolved`), nobody can tell.

* `current_of_last_success`: the last request that succeeded tells the current sample;
* `seek_forgets_history`: what was asked for before makes no difference to a search.
-/

namespace RideHud.Context

/-! ## Requests -/

/-- What a HUD can be asked for. Each frame may be drawn on a canvas of its own. -/
inductive Request : Type 1 where
  /-- Make the sample that follows a time current. -/
  | seek (time : Micros)
  /-- Make a sample current that comes from outside. -/
  | push (sample : Sample Float)
  /-- Draw a frame. -/
  | render {C : Type} [Canvas C] (c : C)

/-- A request together with its answer. -/
inductive Event where
  | sought (time : Micros) (result : Except HudError Nat)
  | pushed (sample : Sample Float)
  | drawn (result : Except HudError Unit)

/-- The source that a request makes current, if it succeeds. -/
def Event.source? : Event → Option SampleSource
  | .sought time (.ok place) => some (.recorded place time)
  | .sought _ (.error _) => none
  | .pushed sample => some (.pushed sample)
  | .drawn _ => none

/-- The source is what the last request that succeeded made it, so there is one if there was such a
request. -/
theorem getD_getLast?_source?_eq_none_iff (es : List Event) :
    (es.filterMap Event.source?).getLast?.getD .none = .none ↔ ∀ e ∈ es, e.source? = none := by
  rw [← List.filterMap_eq_nil_iff]
  cases hlast : (es.filterMap Event.source?).getLast? with
  | none => simpa using hlast
  | some source =>
      obtain ⟨e, -, he⟩ := List.mem_filterMap.mp (List.mem_of_getLast? hlast)
      refine ⟨?_, fun hnil => by rw [hnil] at hlast; cases hlast⟩
      rintro rfl
      -- No request makes nothing current.
      revert he
      fun_cases Event.source? <;> simp

/-- Answer a request. -/
def serve (ctx : Context) : Request → Event × Context
  | .seek time => (.sought time (ctx.seek time).1, (ctx.seek time).2)
  | .push sample => (.pushed sample, ctx.push sample)
  | @Request.render _ _ c => (.drawn (ctx.render c).1, (ctx.render c).2.1)

/-- The HUD after some requests. -/
def after : Context → List Request → Context
  | ctx, [] => ctx
  | ctx, request :: requests => (ctx.serve request).2.after requests

/-- Some requests with their answers. -/
def events : Context → List Request → List Event
  | _, [] => []
  | ctx, request :: requests => (ctx.serve request).1 :: (ctx.serve request).2.events requests

variable {registry : Registry} {settings : Settings} {samples : List (Sample Float)}
  {ctx : Context}

/-- A new HUD has what it sees and the scene of its strategy, if there is one for the mode, and
nothing else. -/
theorem exists_eq_of_create (h : create registry settings samples = .ok ctx) :
    ∃ scene : Option (String × Scene), ctx = { view := ⟨settings, samples, .none⟩, scene := scene } ∧
      match registry.get? settings.hud.mode with
      | none => scene = none
      | some strategy => ∃ drawn, strategy.prepare ⟨settings, samples, .none⟩ = .ok drawn ∧
          scene = some (strategy.name, drawn) := by
  unfold create at h
  cases hstrategy : registry.get? settings.hud.mode with
  | none =>
      rw [hstrategy] at h
      cases h
      exact ⟨none, rfl, rfl⟩
  | some strategy =>
      rw [hstrategy] at h
      dsimp only at h
      cases hprepare : strategy.prepare ⟨settings, samples, .none⟩ with
      | error e =>
          rw [hprepare] at h
          cases h
      | ok drawn =>
          rw [hprepare] at h
          cases h
          exact ⟨_, rfl, drawn, hprepare, rfl⟩

/-- A new HUD sees its recording, and no sample is current. -/
theorem view_of_create (h : create registry settings samples = .ok ctx) :
    ctx.view = ⟨settings, samples, .none⟩ := by
  obtain ⟨scene, rfl, -⟩ := exists_eq_of_create h
  rfl

/-! ## What one request changes -/

/-- A search fails and changes nothing, or it finds a place and makes it current. -/
theorem seek_cases (ctx : Context) (time : Micros) :
    (∃ e, ctx.seek time = (.error e, ctx)) ∨
      ∃ place, Timeline.lookup ctx.view.samples (ctx.hint time) time = .ok place ∧
        ctx.seek time = (.ok place, ctx.setSource (.recorded place time)) := by
  unfold seek
  split
  · exact .inl ⟨_, rfl⟩
  · cases Timeline.lookup ctx.view.samples (ctx.hint time) time with
    | error e => exact .inl ⟨_, rfl⟩
    | ok place => exact .inr ⟨place, rfl, rfl⟩

/-- A frame leaves everything but the cursor and the counts as it was. -/
theorem render_fixes {C : Type} [Canvas C] (ctx : Context) (c : C) :
    (ctx.render c).2.1.view = ctx.view ∧ (ctx.render c).2.1.scene = ctx.scene := by
  unfold render
  dsimp only
  split
  · exact ⟨rfl, rfl⟩
  · split
    · exact ⟨rfl, rfl⟩
    · split <;> exact ⟨rfl, rfl⟩

/-- **A request that succeeds decides what is current**, and one that fails changes nothing that the
HUD sees. -/
theorem view_serve (ctx : Context) (request : Request) :
    (ctx.serve request).2.view
      = { ctx.view with source := (ctx.serve request).1.source?.getD ctx.view.source } := by
  cases request with
  | seek time =>
      rcases ctx.seek_cases time with ⟨e, h⟩ | ⟨place, -, h⟩
      · rw [serve, h]
        rfl
      · rw [serve, h]
        rfl
  | push sample => rfl
  | render c => exact (ctx.render_fixes c).1

/-- **The last request that succeeded decides what is current.** -/
theorem view_after (ctx : Context) (requests : List Request) :
    (ctx.after requests).view
      = { ctx.view with
          source := ((ctx.events requests).filterMap Event.source?).getLast?.getD
            ctx.view.source } := by
  induction requests generalizing ctx with
  | nil => rfl
  | cons request requests ih =>
      rw [after, ih, view_serve, events, List.filterMap_cons]
      cases (ctx.serve request).1.source? with
      | none => rfl
      | some source => rw [List.getLast?_cons, Option.getD_some, Option.getD_some]

/-- What the HUD sees differs by the source alone. -/
theorem view_after_eq {requests requests' : List Request}
    (h : (ctx.after requests).view.source = (ctx.after requests').view.source) :
    (ctx.after requests).view = (ctx.after requests').view := by
  rw [view_after, view_after] at h ⊢
  exact congrArg (fun source => { ctx.view with source := source }) h

theorem after_append (ctx : Context) (requests requests' : List Request) :
    ctx.after (requests ++ requests') = (ctx.after requests).after requests' := by
  induction requests generalizing ctx with
  | nil => rfl
  | cons request requests ih => exact ih _

/-! ## Places that were found -/

/-- `place` is where a search for `time` ends: at the first later sample, the very first apart. -/
structure Resolved (samples : List (Sample Float)) (place : ℕ) (time : Micros) : Prop where
  pos : 1 ≤ place
  later : ∃ s, samples[place]? = some s ∧ time < s.time
  passed : Timeline.Passed samples place time

/-- If the current sample is from the recording, it is where a search for its time ends. -/
def Sound (v : View) : Prop :=
  ∀ place time, v.source = .recorded place time → Resolved v.samples place time

/-- The hint for a search is a place, and it has been passed. -/
theorem Sound.hint (h : Sound ctx.view) (hne : ctx.view.samples ≠ []) (time : Micros) :
    ctx.hint time < ctx.view.samples.length ∧
      Timeline.Passed ctx.view.samples (ctx.hint time) time := by
  have hfront : 0 < ctx.view.samples.length ∧ Timeline.Passed ctx.view.samples 0 time :=
    ⟨List.length_pos_of_ne_nil hne, Timeline.passed_zero _ _⟩
  unfold Context.hint
  cases hsource : ctx.view.source with
  | none => exact hfront
  | pushed sample => exact hfront
  | recorded place earlier =>
      obtain ⟨-, ⟨s, hs, -⟩, hpassed⟩ := h place earlier hsource
      dsimp only
      split
      · exact hfront
      · next hle =>
          exact ⟨(List.getElem?_eq_some_iff.mp hs).1, hpassed.mono (UInt64.not_lt.mp hle)⟩

/-- A search is one from the front of the recording. -/
theorem Sound.seek_eq (h : Sound ctx.view) (time : Micros) :
    (ctx.seek time).1
      = if ctx.view.samples.isEmpty then .error .noSamples
        else (Timeline.lookup ctx.view.samples 0 time).mapError .lookup := by
  unfold Context.seek
  split
  · rfl
  · next hne =>
      obtain ⟨hlt, hpassed⟩ := h.hint (by simpa using hne) time
      rw [Timeline.lookup_eq_lookup_zero hlt hpassed]
      cases Timeline.lookup ctx.view.samples 0 time <;> rfl

/-- A search that succeeds ends where a search for its time ends. -/
theorem Sound.resolved (h : Sound ctx.view) {place : ℕ} {time : Micros}
    (hfound : Timeline.lookup ctx.view.samples (ctx.hint time) time = .ok place) :
    Resolved ctx.view.samples place time := by
  obtain ⟨hlt, -, hle, hlater, -⟩ := Timeline.lookup_eq_ok_iff.mp hfound
  have hne : ctx.view.samples ≠ [] := List.ne_nil_of_length_pos (by omega)
  exact ⟨by omega, hlater, (h.hint hne time).2.lookup hfound⟩

/-- Every request leaves a current sample that is where a search for its time ends. -/
theorem Sound.serve (h : Sound ctx.view) (request : Request) :
    Sound (ctx.serve request).2.view := by
  cases request with
  | seek time =>
      rcases ctx.seek_cases time with ⟨e, hseek⟩ | ⟨place, hfound, hseek⟩
      · rw [Context.serve, hseek]
        exact h
      · rw [Context.serve, hseek]
        rintro place' time' ⟨⟩
        exact h.resolved hfound
  | push sample => rintro place time ⟨⟩
  | render c =>
      rw [Context.serve, (ctx.render_fixes c).1]
      exact h

theorem Sound.after (h : Sound ctx.view) (requests : List Request) :
    Sound (ctx.after requests).view := by
  induction requests generalizing ctx with
  | nil => exact h
  | cons request requests ih => exact ih (h.serve request)

/-- A new HUD has found nothing yet. -/
theorem sound_of_create (h : create registry settings samples = .ok ctx) : Sound ctx.view := by
  rw [view_of_create h]
  rintro place time ⟨⟩

theorem samples_after (h : create registry settings samples = .ok ctx) (requests : List Request) :
    (ctx.after requests).view.samples = samples := by
  rw [view_after, view_of_create h]

/-- Whatever was asked for before, a search shows the sample that one from the front finds. -/
theorem source_after_seek (h : create registry settings samples = .ok ctx)
    (requests : List Request) {place : ℕ} {time : Micros}
    (hfound : Timeline.lookup samples 0 time = .ok place) :
    (ctx.after (requests ++ [.seek time])).view.source = .recorded place time := by
  have hne : samples.isEmpty = false := by
    cases samples with
    | nil => cases hfound
    | cons s samples => rfl
  have hseek := ((sound_of_create h).after requests).seek_eq time
  rw [samples_after h, hne, if_neg Bool.false_ne_true, hfound] at hseek
  rw [after_append]
  show ((ctx.after requests).seek time).2.view.source = _
  rcases (ctx.after requests).seek_cases time with ⟨e, herror⟩ | ⟨place', -, hok⟩
  · rw [herror] at hseek
    cases hseek
  · rw [hok] at hseek ⊢
    cases hseek
    rfl

/-! ## The main theorems -/

/-- **The last request that succeeded tells the current sample.** After any requests to a new HUD,
whether or not its recording is in order: the source is what the last request that succeeded made
it, and there is none as long as no request has; a place of the recording is not the first one, it
has a sample, which is later than the time that was asked for, and that sample is current; so is a
sample that was pushed. A search that fails changes nothing. -/
theorem current_of_last_success (h : create registry settings samples = .ok ctx)
    (requests : List Request) :
    let now := ctx.after requests
    now.view.source = ((ctx.events requests).filterMap Event.source?).getLast?.getD .none ∧
    (now.view.current? = none ↔ ∀ e ∈ ctx.events requests, e.source? = none) ∧
    (∀ place time, now.view.source = .recorded place time → 1 ≤ place ∧ place < samples.length ∧
      ∃ s, samples[place]? = some s ∧ time < s.time ∧ now.view.current? = some s) ∧
    (∀ sample, now.view.source = .pushed sample → now.view.current? = some sample) ∧
    ∀ time e, (now.seek time).1 = .error e → (now.seek time).2 = now := by
  intro now
  have hsamples : now.view.samples = samples := samples_after h requests
  have hsource : now.view.source
      = ((ctx.events requests).filterMap Event.source?).getLast?.getD .none := by
    rw [show now.view = _ from view_after ctx requests, view_of_create h]
  have hrecorded : ∀ place time, now.view.source = .recorded place time → 1 ≤ place ∧
      place < samples.length ∧
        ∃ s, samples[place]? = some s ∧ time < s.time ∧ now.view.current? = some s := by
    intro place time hplace
    obtain ⟨hpos, ⟨s, hs, hlater⟩, -⟩ := (sound_of_create h).after requests place time hplace
    rw [show (ctx.after requests).view.samples = samples from hsamples] at hs
    refine ⟨hpos, (List.getElem?_eq_some_iff.mp hs).1, s, hs, hlater, ?_⟩
    rw [View.current?, hplace, hsamples]
    exact hs
  have hpushed : ∀ sample, now.view.source = .pushed sample →
      now.view.current? = some sample := by
    intro sample hsample
    rw [View.current?, hsample]
  refine ⟨hsource, ?_, hrecorded, hpushed, fun time e herror => ?_⟩
  · -- A source other than none has a current sample, so only none is without.
    have hnone : now.view.current? = none ↔ now.view.source = .none := by
      cases hnow : now.view.source with
      | none => simp [View.current?, hnow]
      | recorded place time =>
          obtain ⟨-, -, s, -, -, hs⟩ := hrecorded place time hnow
          simp [hs]
      | pushed sample => simp [hpushed sample hnow]
    rw [hnone, hsource, getD_getLast?_source?_eq_none_iff]
  · rcases now.seek_cases time with ⟨e', hseek⟩ | ⟨place, -, hseek⟩
    · rw [hseek]
    · rw [hseek] at herror
      cases herror

/-- A sample that tells nothing but its time. -/
def reading (time : Micros) : Sample Float := { Sample.zero with time := time }

/-- A recording that runs back in time once. -/
def unordered : List (Sample Float) := [reading 5, reading 20, reading 10, reading 30, reading 40]

/-- A new HUD without a strategy. -/
def plain (samples : List (Sample Float)) : Context := { view := { settings := {}, samples } }

/-- Searches on and back and past the end, a sample from outside and a frame. -/
def mixed : List Request :=
  [.seek 20, .seek 8, .push (reading 7), .render ({ width := 64, height := 48 } : Recording),
    .seek 25, .seek 40]

/-- The last search is past the end, so the one before it tells the current sample. -/
theorem current_of_mixed :
    create .usual {} unordered = .ok (plain unordered) ∧
      ((plain unordered).after mixed).view.source = .recorded 3 25 ∧
      ((plain unordered).after mixed).view.current? = some (reading 30) := by
  have hcreate : create .usual {} unordered = .ok (plain unordered) := rfl
  obtain ⟨hsource, -, hrecorded, -, -⟩ := current_of_last_success hcreate mixed
  have hplace : ((plain unordered).after mixed).view.source = .recorded 3 25 := hsource.trans rfl
  obtain ⟨-, -, s, hs, -, hcurrent⟩ := hrecorded 3 25 hplace
  obtain rfl : s = reading 30 := (Option.some.inj hs).symm
  exact ⟨hcreate, hplace, hcurrent⟩

/-- **A search forgets what was asked for before.** After any requests, succeeding or failing, a
search answers as on any new HUD of the same recording, which searches it from the front. The
recording need not even be in order. -/
theorem seek_forgets_history {registry' : Registry} {settings' : Settings} {fresh : Context}
    (h : create registry settings samples = .ok ctx)
    (hfresh : create registry' settings' samples = .ok fresh) (requests : List Request)
    (time : Micros) :
    ((ctx.after requests).seek time).1 = (fresh.seek time).1 ∧
      (fresh.seek time).1
        = if samples.isEmpty then .error .noSamples
          else (Timeline.lookup samples 0 time).mapError .lookup := by
  have hnew := (sound_of_create hfresh).seek_eq time
  have hused := ((sound_of_create h).after requests).seek_eq time
  rw [view_of_create hfresh] at hnew
  rw [samples_after h requests] at hused
  exact ⟨hused.trans hnew.symm, hnew⟩

/-- The search for 9 goes back in time, the one for 29 goes on: both find what a new HUD finds. -/
theorem seek_after_mixed :
    create .usual {} unordered = .ok (plain unordered) ∧
      create [] { hud.mode := .booster } unordered
        = .ok { plain unordered with view.settings := { hud.mode := .booster } } ∧
      (((plain unordered).after mixed).seek 9).1 = .ok 1 ∧
      (((plain unordered).after mixed).seek 29).1 = .ok 3 := by
  have hcreate : create .usual {} unordered = .ok (plain unordered) := rfl
  have hfresh : create [] { hud.mode := .booster } unordered
      = .ok { plain unordered with view.settings := { hud.mode := .booster } } := rfl
  have hforget := seek_forgets_history hcreate hfresh mixed
  refine ⟨hcreate, hfresh, ?_, ?_⟩
  · rw [(hforget 9).1, (hforget 9).2]
    rfl
  · rw [(hforget 29).1, (hforget 29).2]
    rfl

end RideHud.Context
