import RideHud.Proofs.Draw.Drawing
import RideHud.Proofs.Hud.Frame

/-!
# The protocol of a frame

A frame clears the canvas and then draws its stages one after the other until one fails, each by the
hook that the strategy has for it and between a save and a restore (`Plays`). What the hooks do with
the canvas is up to the strategy. Whatever it is, the same turns are taken, the same errors told and
the same counts kept (`Protocol`).

* `exists_protocol`: every frame keeps to the protocol;
* `frames_keep_protocol`: so do all frames of a HUD, and every frame is counted once.
-/

namespace RideHud

/-- The hook for a stage: what it draws on a canvas of some size. -/
def Scene.hook (scene : Scene) (v : View) (cursor : Cursor) :
    Stage → Float × Float → Sketch HudError
  | .content, size => scene.content v size
  | .overlay, size => (scene.overlay v size cursor).1

namespace Context

variable {C : Type} [Canvas C] {hook : Stage → Float × Float → Sketch HudError}
  {script : List Stage} {turns : List Turn} {result : Except HudError Unit} {c : C}

/-! ## Counts -/

/-- The counts of frames: those that were drawn, those without a current sample, and those of which
a stage failed. -/
structure Counts where
  rendered : UInt64
  empty : UInt64
  failed : UInt64

/-- The counts so far. -/
def counts (ctx : Context) : Counts := ⟨ctx.rendered, ctx.empty, ctx.failed⟩

namespace Counts

/-- The counts after one more frame. -/
def next (n : Counts) (current? : Option (Sample Float)) (result : Except HudError Unit) : Counts :=
  match current?, result with
  | none, _ => { n with empty := n.empty + 1 }
  | some _, .ok () => { n with rendered := n.rendered + 1 }
  | some _, .error _ => { n with failed := n.failed + 1 }

/-- The number of all frames, modulo `2 ^ 64`. -/
def total (n : Counts) : UInt64 := n.rendered + n.empty + n.failed

/-- A frame is counted once. -/
theorem total_next (n : Counts) (current? : Option (Sample Float)) (result : Except HudError Unit) :
    (n.next current? result).total = n.total + 1 := by
  fun_cases next n current? result <;> dsimp only [total] <;> ac_rfl

end Counts

/-! ## Turns -/

/-- A run of the hook for a stage: what it performed, and how it ended. -/
structure Turn where
  stage : Stage
  ops : List Op
  result : Except HudError Unit

/-- The operations of a turn, between its save and its restore. -/
def Turn.bracketed (t : Turn) : List Op := .save :: t.ops ++ [.restore]

/-- The turn is what the hook for its stage does, once the canvas is saved. -/
def Turn.RunOn (t : Turn) (hook : Stage → Float × Float → Sketch HudError) (c : C) : Prop :=
  Sketch.Draws .canvas (hook t.stage (Canvas.size c)) (Canvas.perform .save c).2 t.ops t.result

/-- The hooks for some stages take their turns, until one fails. -/
inductive Plays (hook : Stage → Float × Float → Sketch HudError) :
    List Stage → C → List Turn → Except HudError Unit → Prop
  | done {c : C} : Plays hook [] c [] (.ok ())
  | drawn {s : Stage} {script : List Stage} {c : C} {ops : List Op} {turns : List Turn}
      {result : Except HudError Unit} (hturn : Turn.RunOn ⟨s, ops, .ok ()⟩ hook c)
      (hrest : Plays hook script (Canvas.after (Turn.bracketed ⟨s, ops, .ok ()⟩) c) turns result) :
      Plays hook (s :: script) c (⟨s, ops, .ok ()⟩ :: turns) result
  | failed {s : Stage} {script : List Stage} {c : C} {ops : List Op} {e : HudError}
      (hturn : Turn.RunOn ⟨s, ops, .error e⟩ hook c) :
      Plays hook (s :: script) c [⟨s, ops, .error e⟩] (.error (.stage s e))

namespace Plays

/-- The stages come in order. -/
theorem stages_le (h : Plays hook script c turns result) : turns.map Turn.stage <+: script := by
  induction h with
  | done => exact ⟨[], rfl⟩
  | drawn _ _ ih => exact (List.prefix_cons_inj _).mpr ih
  | failed _ => exact (List.prefix_cons_inj _).mpr ⟨_, rfl⟩

/-- Every turn is a run of the hook, on the canvas that the turns before it leave. -/
theorem runOn (h : Plays hook script c turns result) (before : List Turn) (t : Turn)
    (rest : List Turn) (hturns : turns = before ++ t :: rest) :
    t.RunOn hook (Canvas.after (before.flatMap Turn.bracketed) c) := by
  induction h generalizing before with
  | done => cases before <;> cases hturns
  | drawn hturn _ ih =>
      cases before with
      | nil =>
          cases hturns
          exact hturn
      | cons first before =>
          -- The first turn comes before, and the others go on from the canvas that it leaves.
          cases hturns
          rw [List.flatMap_cons, Canvas.after_append]
          exact ih before rfl
  | failed hturn =>
      cases before with
      | nil =>
          cases hturns
          exact hturn
      | cons first before => cases before <;> cases hturns

/-- The stages fail exactly if a turn does, and the error names its stage. -/
theorem error_iff (h : Plays hook script c turns result) (e : HudError) :
    result = .error e ↔ ∃ t ∈ turns, ∃ cause, t.result = .error cause ∧ e = .stage t.stage cause := by
  induction h with
  | done => exact ⟨nofun, nofun⟩
  | drawn _ _ ih =>
      rw [ih]
      constructor
      · rintro ⟨t, ht, hfailed⟩
        exact ⟨t, List.mem_cons_of_mem _ ht, hfailed⟩
      · rintro ⟨t, ht, cause, hfailed, he⟩
        rcases List.mem_cons.mp ht with rfl | ht
        · cases hfailed
        · exact ⟨t, ht, cause, hfailed, he⟩
  | failed _ =>
      constructor
      · rintro ⟨⟩
        exact ⟨_, List.mem_singleton_self _, _, rfl, rfl⟩
      · rintro ⟨t, ht, cause, hfailed, rfl⟩
        obtain rfl := List.mem_singleton.mp ht
        cases hfailed
        rfl

/-- Without a stage there is no turn. -/
theorem eq_nil (h : Plays hook [] c turns result) : turns = [] := by
  cases h
  rfl

/-- A stage is reached if there is a turn for it: the first always, the second if the first turn
ends well. -/
theorem reached (h : Plays hook [.content, .overlay] c turns result) :
    (∃ t ∈ turns, t.stage = .content) ∧
      ((∃ t ∈ turns, t.stage = .overlay) ↔ ∃ t ∈ turns, t.stage = .content ∧ t.result = .ok ()) := by
  cases h with
  | drawn _ hrest =>
      refine ⟨⟨_, List.mem_cons_self, rfl⟩, fun _ => ⟨_, List.mem_cons_self, rfl, rfl⟩, fun _ => ?_⟩
      cases hrest with
      | drawn => exact ⟨_, List.mem_cons_of_mem _ List.mem_cons_self, rfl⟩
      | failed => exact ⟨_, List.mem_cons_of_mem _ List.mem_cons_self, rfl⟩
  | failed _ =>
      refine ⟨⟨_, List.mem_cons_self, rfl⟩, ?_, ?_⟩
      · rintro ⟨t, ht, hstage⟩
        obtain rfl := List.mem_singleton.mp ht
        cases hstage
      · rintro ⟨t, ht, -, hok⟩
        obtain rfl := List.mem_singleton.mp ht
        cases hok

end Plays

/-- A stage is a turn of its hook. -/
theorem exists_drawStage (s : Stage) (sketch : Sketch HudError) (c : C) :
    ∃ t : Turn, t.stage = s ∧ Sketch.Draws .canvas sketch (Canvas.perform .save c).2 t.ops t.result ∧
      drawStage s sketch c = (t.result.mapError (.stage s), Canvas.after t.bracketed c) := by
  obtain ⟨ops, hdraws, hafter⟩ := Sketch.exists_draws .canvas sketch (Canvas.perform .save c).2
  cases hrun : Sketch.run .canvas sketch (Canvas.perform .save c).2 with
  | mk result d =>
      rw [hrun] at hdraws hafter
      refine ⟨⟨s, ops, result⟩, rfl, hdraws, ?_⟩
      have hcanvas : Canvas.after (.save :: ops ++ [.restore]) c = (Canvas.perform .restore d).2 := by
        rw [Canvas.after_append]
        exact congrArg (fun d => (Canvas.perform .restore d).2) hafter.symm
      rw [Turn.bracketed, hcanvas, drawStage, Sketch.run, Step.run, hrun]
      cases result with
      | error e => rfl
      | ok u =>
          dsimp only
          rw [Sketch.run_nil]

/-- Both stages are the turns of their hooks. -/
theorem exists_plays (ctx : Context) (scene : Scene) (c : C) :
    ∃ turns, Plays (scene.hook ctx.view ctx.cursor) [.content, .overlay] c turns
        (ctx.drawScene scene c).1 ∧
      (ctx.drawScene scene c).2.2 = Canvas.after (turns.flatMap Turn.bracketed) c := by
  obtain ⟨⟨s, ops, result⟩, rfl, hcontent, hstage⟩ :=
    exists_drawStage .content (scene.content ctx.view (Canvas.size c)) c
  rw [drawScene, hstage]
  cases result with
  | error e => exact ⟨_, .failed hcontent, by rw [List.flatMap_singleton]; rfl⟩
  | ok u =>
      -- The overlay is drawn on the canvas that the content leaves.
      obtain ⟨⟨s, ops', result'⟩, rfl, hoverlay, hstage'⟩ := exists_drawStage .overlay
        (scene.overlay ctx.view (Canvas.size (Canvas.after (Turn.bracketed ⟨.content, ops, .ok u⟩) c))
          ctx.cursor).1
        (Canvas.after (Turn.bracketed ⟨.content, ops, .ok u⟩) c)
      dsimp only [Except.mapError]
      rw [hstage']
      cases result' with
      | error e =>
          refine ⟨_, .drawn hcontent (.failed hoverlay), ?_⟩
          rw [List.flatMap_cons, List.flatMap_singleton, Canvas.after_append]
      | ok u' =>
          refine ⟨_, .drawn hcontent (.drawn hoverlay .done), ?_⟩
          rw [List.flatMap_cons, List.flatMap_singleton, Canvas.after_append]

/-! ## One frame -/

/-- The stages of the next frame: none without a current sample or a strategy. -/
def stages (ctx : Context) : List Stage :=
  if ctx.view.current?.isSome && ctx.scene.isSome then [.content, .overlay] else []

/-- The hooks for the next frame. -/
def hooks (ctx : Context) : Stage → Float × Float → Sketch HudError :=
  match ctx.scene with
  | none => fun _ _ => []
  | some (_, scene) => scene.hook ctx.view ctx.cursor

theorem hooks_eq (ctx : Context) {name : String} {scene : Scene}
    (h : ctx.scene = some (name, scene)) : ctx.hooks = scene.hook ctx.view ctx.cursor := by
  unfold hooks
  rw [h]

/-- A frame has no stages, or a current sample and a strategy. -/
theorem stages_cases (ctx : Context) :
    (ctx.stages = [] ∧ (ctx.view.current? = none ∨ ctx.scene = none)) ∨
      (ctx.stages = [.content, .overlay] ∧
        ∃ s name scene, ctx.view.current? = some s ∧ ctx.scene = some (name, scene)) := by
  unfold stages
  cases ctx.view.current? with
  | none => exact .inl ⟨rfl, .inl rfl⟩
  | some s =>
      cases ctx.scene with
      | none => exact .inl ⟨rfl, .inr rfl⟩
      | some named => exact .inr ⟨rfl, s, named.1, named.2, rfl, rfl⟩

/-- **A frame is the turns of its hooks**, once the canvas is clear. -/
theorem exists_turns (ctx : Context) (c : C) :
    ∃ turns, Plays ctx.hooks ctx.stages (Canvas.perform .clear c).2 turns (ctx.render c).1 ∧
      (ctx.render c).2.2 = Canvas.after (.clear :: turns.flatMap Turn.bracketed) c := by
  rcases ctx.stages_cases with ⟨hstages, hbare⟩ | ⟨hstages, s, name, scene, hcurrent, hscene⟩
  · obtain ⟨hok, -, hcanvas⟩ := render_of_bare hbare c
    rw [hstages, hok]
    exact ⟨[], .done, hcanvas⟩
  · obtain ⟨turns, hplays, hcanvas⟩ := ctx.exists_plays scene (Canvas.perform .clear c).2
    rw [← render_of_scene hcurrent hscene c] at hplays hcanvas
    rw [hstages, ctx.hooks_eq hscene]
    exact ⟨turns, hplays, hcanvas⟩

/-- What a frame on the canvas `c` does, in turns. -/
structure Protocol (ctx : Context) (c : C) (turns : List Turn) : Prop where
  /-- The canvas is cleared first, and then nothing happens to it but the turns. -/
  canvas_eq : (ctx.render c).2.2 = Canvas.after (.clear :: turns.flatMap Turn.bracketed) c
  /-- There is at most one turn for a stage, and the stages come in order. -/
  stages_le : turns.map Turn.stage <+: [.content, .overlay]
  /-- The content is drawn exactly if there are a current sample and a strategy. -/
  content_iff : (∃ t ∈ turns, t.stage = .content) ↔
    (∃ s, ctx.view.current? = some s) ∧ ∃ named, ctx.scene = some named
  /-- The overlay is drawn exactly if the content was. -/
  overlay_iff : (∃ t ∈ turns, t.stage = .overlay) ↔
    ∃ t ∈ turns, t.stage = .content ∧ t.result = .ok ()
  /-- A turn is what the hook of the strategy does, on the canvas that the turns before it leave. -/
  runOn : ∀ before t rest, turns = before ++ t :: rest →
    ∃ name scene, ctx.scene = some (name, scene) ∧
      t.RunOn (scene.hook ctx.view ctx.cursor)
        (Canvas.after (.clear :: before.flatMap Turn.bracketed) c)
  /-- The frame fails exactly if a turn does, and the error names its stage. -/
  error_iff : ∀ e, (ctx.render c).1 = .error e ↔
    ∃ t ∈ turns, ∃ cause, t.result = .error cause ∧ e = .stage t.stage cause
  /-- The frame is counted once. -/
  counts_eq : (ctx.render c).2.1.counts = ctx.counts.next ctx.view.current? (ctx.render c).1

theorem counts_render (ctx : Context) (c : C) :
    (ctx.render c).2.1.counts = ctx.counts.next ctx.view.current? (ctx.render c).1 := by
  unfold render
  cases ctx.view.current? with
  | none => rfl
  | some s =>
      cases ctx.scene with
      | none => rfl
      | some named =>
          dsimp only
          rw [if_neg (by simp)]
          rcases ctx.drawScene named.2 (Canvas.perform .clear c).2 with ⟨_ | _, cursor, d⟩ <;> rfl

/-- The turns of its hooks are what the protocol says. -/
theorem Plays.protocol {ctx : Context}
    (h : Plays ctx.hooks ctx.stages (Canvas.perform .clear c).2 turns (ctx.render c).1)
    (hcanvas : (ctx.render c).2.2 = Canvas.after (.clear :: turns.flatMap Turn.bracketed) c) :
    ctx.Protocol c turns := by
  have hrunOn := h.runOn
  have herror := h.error_iff
  rcases ctx.stages_cases with ⟨hstages, hbare⟩ | ⟨hstages, s, name, scene, hcurrent, hscene⟩
  · -- Without a current sample or a strategy there are no turns.
    rw [hstages] at h
    obtain rfl := h.eq_nil
    refine ⟨hcanvas, ⟨_, rfl⟩, ⟨nofun, ?_⟩, ⟨nofun, nofun⟩, ?_, herror, ctx.counts_render c⟩
    · rintro ⟨⟨s, hs⟩, named, hnamed⟩
      rcases hbare with hnone | hnone
      · rw [hs] at hnone
        cases hnone
      · rw [hnamed] at hnone
        cases hnone
    · intro before t rest hturns
      cases before <;> cases hturns
  · rw [ctx.hooks_eq hscene] at hrunOn
    rw [hstages] at h
    exact ⟨hcanvas, h.stages_le, ⟨fun _ => ⟨⟨s, hcurrent⟩, _, hscene⟩, fun _ => h.reached.1⟩,
      h.reached.2, fun before t rest hturns => ⟨name, scene, hscene, hrunOn before t rest hturns⟩,
      herror, ctx.counts_render c⟩

/-- **Every frame keeps to the protocol**, whatever its strategy does. -/
theorem exists_protocol (ctx : Context) (c : C) : ∃ turns, ctx.Protocol c turns := by
  obtain ⟨turns, hplays, hcanvas⟩ := ctx.exists_turns c
  exact ⟨turns, hplays.protocol hcanvas⟩

/-! ## Frames in a row -/

/-- The request is for a frame. -/
def Request.isFrame : Request → Bool
  | @Request.render _ _ _ => true
  | _ => false

/-- A frame adds one to the total, and no other request adds anything. -/
theorem total_serve (ctx : Context) (request : Request) :
    (ctx.serve request).2.counts.total
      = ctx.counts.total + if request.isFrame then 1 else 0 := by
  cases request with
  | seek time =>
      rcases ctx.seek_cases time with ⟨e, hseek⟩ | ⟨place, -, hseek⟩ <;>
        rw [serve, hseek] <;> exact (UInt64.add_zero _).symm
  | push sample => exact (UInt64.add_zero _).symm
  | render c =>
      show (ctx.render c).2.1.counts.total = _
      rw [counts_render, Counts.total_next]
      rfl

/-- The HUD with another scene, if it has one. -/
def become (ctx : Context) (f : Scene → Scene) : Context :=
  { ctx with scene := ctx.scene.map fun named => (named.1, f named.2) }

/-- The HUD after some requests to a strategy that may remember them: what it draws from then on, a
request may change. -/
def afterEach : Context → List (Request × (Scene → Scene)) → Context
  | ctx, [] => ctx
  | ctx, step :: run => ((ctx.serve step.1).2.become step.2).afterEach run

theorem become_id (ctx : Context) : ctx.become id = ctx := by
  have hscene : ctx.scene.map (fun named => (named.1, id named.2)) = ctx.scene := by
    cases ctx.scene <;> rfl
  rw [become, hscene]

/-- Nothing changes with a strategy that does not remember. -/
theorem afterEach_map_id (ctx : Context) (requests : List Request) :
    ctx.afterEach (requests.map fun request => (request, id)) = ctx.after requests := by
  induction requests generalizing ctx with
  | nil => rfl
  | cons request requests ih =>
      rw [List.map_cons, afterEach, become_id]
      exact ih _

/-- The total is the number of frames. -/
theorem total_afterEach (ctx : Context) (run : List (Request × (Scene → Scene))) :
    (ctx.afterEach run).counts.total
      = ctx.counts.total + .ofNat (run.countP fun step => step.1.isFrame) := by
  induction run generalizing ctx with
  | nil => exact (UInt64.add_zero _).symm
  | cons step run ih =>
      have htotal : ((ctx.serve step.1).2.become step.2).counts.total
          = ctx.counts.total + if step.1.isFrame then 1 else 0 := ctx.total_serve step.1
      rw [afterEach, ih, htotal, List.countP_cons]
      cases step.1.isFrame with
      | false =>
          rw [if_neg Bool.false_ne_true, if_neg Bool.false_ne_true, UInt64.add_zero, Nat.add_zero]
      | true =>
          rw [if_pos rfl, if_pos rfl, UInt64.add_assoc, UInt64.add_comm 1, UInt64.ofNat_add]
          rfl

/-- A HUD neither finds nor loses a strategy. -/
theorem isSome_scene_afterEach (ctx : Context) (run : List (Request × (Scene → Scene))) :
    (ctx.afterEach run).scene.isSome = ctx.scene.isSome := by
  induction run generalizing ctx with
  | nil => rfl
  | cons step run ih =>
      rw [afterEach, ih]
      show ((ctx.serve step.1).2.scene.map _).isSome = _
      rw [Option.isSome_map, (ctx.cursor_serve step.1).1]

/-- **All frames keep to the protocol, whatever the strategy.** The strategy of the mode may do
anything with the canvas, fail anywhere, and remember what it was asked for. If it is not ready there
is no HUD. Otherwise, after any searches, samples from outside and frames on whatever canvases, the
next frame keeps to the protocol on any canvas, and each of the frames so far has been counted
once. -/
theorem frames_keep_protocol (registry : Registry) (settings : Settings)
    (samples : List (Sample Float)) :
    (∀ strategy e, registry.get? settings.hud.mode = some strategy →
      strategy.prepare ⟨settings, samples, .none⟩ = .error e →
      create registry settings samples = .error (.notReady settings.hud.mode e)) ∧
    ∀ ctx, create registry settings samples = .ok ctx →
      (match registry.get? settings.hud.mode with
        | none => ctx.scene = none
        | some strategy => ∃ scene, strategy.prepare ⟨settings, samples, .none⟩ = .ok scene ∧
            ctx.scene = some (strategy.name, scene)) ∧
      ∀ run : List (Request × (Scene → Scene)),
        let now := ctx.afterEach run
        now.scene.isSome = ctx.scene.isSome ∧
        now.rendered + now.empty + now.failed
          = .ofNat (run.countP fun step => step.1.isFrame) ∧
        ∀ {C : Type} [Canvas C] (c : C), ∃ turns, now.Protocol c turns := by
  refine ⟨fun strategy e hstrategy hprepare => ?_, fun ctx h => ?_⟩
  · rw [create, hstrategy]
    dsimp only
    rw [hprepare]
  · obtain ⟨scene, rfl, hscene⟩ := exists_eq_of_create h
    exact ⟨hscene, fun run => ⟨isSome_scene_afterEach _ run,
      (total_afterEach _ run).trans (UInt64.zero_add _), fun c => exists_protocol _ c⟩⟩

/-- A strategy that needs a recording. It goes on with the content when it cannot clip, but not with
the overlay. -/
def probe : Strategy where
  name := "probe"
  prepare v :=
    if v.samples.isEmpty then .error .noSamples
    else .ok
      { content := fun _ size => [.attempt (.apply .clip) fun
          | .ok () => []
          | .error _ => [.call (.rectangle 0 0 size.1 size.2)]]
        overlay := fun _ _ cursor => ([.call (.apply .clip), .call (.apply .fill)], cursor) }

/-- A canvas that does not clip. -/
def unclipped : Recording := { width := 64, height := 48, failing := some .clip }

/-- Two frames so far, one without a sample. In the next one the overlay has its turn and fails. Had
the strategy stopped to draw anything after the first frame, the next one would not fail. -/
theorem frames_of_probe :
    create [(.booster, probe)] { hud.mode := .booster } [] = .error (.notReady .booster .noSamples) ∧
      ∃ ctx, create [(.booster, probe)] { hud.mode := .booster } [reading 5] = .ok ctx ∧
        let now := ctx.after [.render unclipped, .push (reading 7), .render unclipped]
        let later := ctx.afterEach [(.render unclipped, fun _ => {}), (.push (reading 7), id)]
        now.rendered + now.empty + now.failed = 2 ∧
        (∃ turns, now.Protocol unclipped turns ∧
          (∃ t ∈ turns, t.stage = .content ∧ t.result = .ok ()) ∧
          ∃ t ∈ turns, t.stage = .overlay ∧ t.result = .error (.canvas (.requested .clip))) ∧
        ∃ turns, later.Protocol unclipped turns ∧ ∃ t ∈ turns, t.stage = .content := by
  have hnot := (frames_keep_protocol [(.booster, probe)] { hud.mode := .booster } []).1
  have hkeep := (frames_keep_protocol [(.booster, probe)] { hud.mode := .booster } [reading 5]).2
  refine ⟨hnot probe .noSamples rfl rfl, _, rfl, ?_⟩
  obtain ⟨-, hrun⟩ := hkeep _ rfl
  obtain ⟨-, htotal, hprotocol⟩ := hrun
    ([.render unclipped, .push (reading 7), .render unclipped].map fun request => (request, id))
  rw [afterEach_map_id] at htotal hprotocol
  obtain ⟨-, -, hlater⟩ := hrun [(.render unclipped, fun _ => {}), (.push (reading 7), id)]
  obtain ⟨turns, hturns⟩ := hprotocol unclipped
  obtain ⟨turns', hturns'⟩ := hlater unclipped
  have hresult := (hturns.error_iff (.stage .overlay (.canvas (.requested .clip)))).mp rfl
  obtain ⟨t, ht, cause, hfailed, he⟩ := hresult
  obtain ⟨hstage, hcause⟩ := HudError.stage.inj he
  refine ⟨htotal, ⟨turns, hturns, hturns.overlay_iff.mp ⟨t, ht, hstage.symm⟩,
    t, ht, hstage.symm, hcause ▸ hfailed⟩, turns', hturns', ?_⟩
  exact hturns'.content_iff.mpr ⟨⟨reading 7, rfl⟩, _, rfl⟩

end Context

end RideHud
