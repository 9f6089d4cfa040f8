import RideHud.Proofs.Draw.Tidy
import RideHud.Proofs.Hud.Protocol

/-!
# How frames are aborted

The booster draws nothing, and what the swing ride draws is tidy as long as there is a current sample
(`Swingboat.tidy_content`, `Swingboat.tidy_overlay`). A frame without one has no stages, so in every
frame of the usual strategies saves and restores match, and an operation that fails is the last one
but for restores (`frames_abort_cleanly`).
-/

namespace RideHud

/-! ## Turns of tidy hooks -/

namespace Context

variable {C : Type} [Canvas C] {hook : Stage → Float × Float → Sketch HudError}
  {script : List Stage} {turns : List Turn} {result : Except HudError Unit} {c : C}

/-- What tidy hooks perform is balanced. -/
theorem Plays.balanced (h : Plays hook script c turns result)
    (htidy : ∀ s ∈ script, ∀ size, (hook s size).Tidy) :
    Balanced (turns.flatMap Turn.bracketed) := by
  induction h with
  | done => exact balanced_nil
  | drawn hturn _ ih =>
      have hops := Sketch.Draws.balanced hturn (htidy _ List.mem_cons_self _)
      rw [List.flatMap_cons]
      exact hops.bracket.append (ih fun s hs => htidy s (List.mem_cons_of_mem _ hs))
  | failed hturn =>
      have hops := Sketch.Draws.balanced hturn (htidy _ List.mem_cons_self _)
      rw [List.flatMap_singleton]
      exact hops.bracket

/-- Tidy hooks end with the first operation that fails, and then only restores. -/
theorem Plays.ends (h : Plays hook script c turns result)
    (htidy : ∀ s ∈ script, ∀ size, (hook s size).Tidy) :
    ∃ s, Ends (fun e => .stage s (.canvas e)) (turns.flatMap Turn.bracketed) c result := by
  induction h with
  | done => exact ⟨.content, .well trivial⟩
  | drawn hturn _ ih =>
      obtain ⟨s, hrest⟩ := ih fun s hs => htidy s (List.mem_cons_of_mem _ hs)
      rw [List.flatMap_cons]
      cases (Sketch.Draws.ends hturn (htidy _ List.mem_cons_self _)).bracket with
      | well hturn => exact ⟨s, hrest.prepend hturn⟩
  | failed hturn =>
      have hends := (Sketch.Draws.ends hturn (htidy _ List.mem_cons_self _)).bracket
      rw [List.flatMap_singleton]
      exact ⟨_, hends.mapError _⟩

/-- Tidy hooks fail with the canvas only. -/
theorem Plays.eq_canvas_of_error {e : HudError} (h : Plays hook script c turns (.error e))
    (htidy : ∀ s ∈ script, ∀ size, (hook s size).Tidy) :
    ∃ s cause, e = .stage s (.canvas cause) := by
  obtain ⟨s, hends⟩ := h.ends htidy
  cases hends with
  | aborted _ _ _ cause => exact ⟨s, cause, rfl⟩

end Context

namespace Context

variable {hook : Stage → Float × Float → Sketch HudError} {script : List Stage} {turns : List Turn}
  {r : Recording} {e : HudError}

/-- If tidy hooks fail on a recording canvas, then in the turn for the stage that the error names,
with a painting of the kind that fails. -/
theorem Plays.exists_failed (h : Plays hook script r turns (.error e))
    (htidy : ∀ s ∈ script, ∀ size, (hook s size).Tidy) :
    ∃ t ∈ turns, ∃ p, r.failing = some p ∧ .apply p ∈ t.ops ∧
      e = .stage t.stage (.canvas (.requested p)) := by
  obtain ⟨t, ht, cause, hfailed, rfl⟩ := (h.error_iff e).mp rfl
  obtain ⟨before, rest, hturns⟩ := List.append_of_mem ht
  have hdraws := h.runOn before t rest hturns
  have hstage : t.stage ∈ script := h.stages_le.subset (List.mem_map_of_mem ht)
  rcases Recording.ends_cases (hdraws.ends (htidy _ hstage _)) with
    ⟨hok, -⟩ | ⟨p, before, n, hp, herror, hops, -⟩
  · rw [hfailed] at hok
    cases hok
  · rw [hfailed] at herror
    cases herror
    refine ⟨t, ht, p, ?_, ?_, rfl⟩
    · rw [← hp]
      exact (Recording.failing_after _ r).symm
    · rw [hops]
      exact List.mem_append_right _ List.mem_cons_self

end Context

/-! ## The swing ride -/

namespace LoadGraph

/-- The line of the graph neither saves nor restores. -/
theorem all_line (window : Micros) (maxLoad : Float) (buckets : List (Bucket Float))
    (anchor : ℕ) : ((line window maxLoad buckets anchor).all fun op => !op.isBracket) = true := by
  unfold line
  cases points window maxLoad buckets anchor with
  | nil => rfl
  | cons p ps =>
      rw [List.all_cons, List.all_map]
      exact List.all_eq_true.mpr fun q _ => rfl

theorem tidy_sketch (graph : Settings.Graph) (buckets : List (Bucket Float)) (anchor : ℕ) :
    (sketch graph buckets anchor).Tidy := by
  refine .saved (Sketch.tidy_calls ?_) (Sketch.tidy_calls rfl)
  rw [List.all_append, List.all_append, all_line]
  rfl

end LoadGraph

namespace Swingboat

variable {v : View} {s : Sample Float}

theorem tidy_ride (rotation : Float) : (ride rotation).Tidy :=
  .saved (Sketch.tidy_calls rfl) (.saved (Sketch.tidy_calls rfl) (Sketch.tidy_calls rfl))

/-- The ride is tidy if there is a tilt to draw. -/
theorem tidy_content {tilts : Array Float} {tilt : Float} (h : currentTilt tilts v = .ok tilt)
    (size : Float × Float) : (content tilts v size).Tidy := by
  unfold content
  rw [h]
  exact .saved ((Sketch.tidy_calls rfl).append (tidy_ride _)) .nil

theorem tidy_readout (buckets : List (Bucket Float)) (v : View) (anchor : Option ℕ)
    (s : Sample Float) : (readout buckets v anchor s).Tidy := by
  unfold readout
  refine .saved (.append (Sketch.tidy_calls rfl) (.saved (.append (Sketch.tidy_calls rfl) ?_) .nil))
    .nil
  cases anchor with
  | none => exact .nil
  | some anchor => exact .mark (LoadGraph.tidy_sketch _ _ _)

/-- The load is tidy if there is a sample to show. -/
theorem tidy_overlay (buckets : List (Bucket Float)) (h : v.current? = some s) (cursor : Cursor) :
    (overlay buckets v cursor).1.Tidy := by
  unfold overlay
  rw [h]
  dsimp only
  cases anchor? buckets v cursor with
  | none => exact tidy_readout buckets v none s
  | some p => exact tidy_readout buckets v (some p.1) s

/-- There is a tilt to draw if there is a current sample: its own. -/
theorem currentTilt_eq (h : v.current? = some s) :
    currentTilt (tilts v.samples) v = .ok s.quat.tilt := by
  unfold View.current? at h
  unfold currentTilt
  cases hsource : v.source with
  | none =>
      rw [hsource] at h
      cases h
  | recorded place time =>
      rw [hsource] at h
      dsimp only at h ⊢
      rw [tilts_getElem? h]
  | pushed sample =>
      rw [hsource] at h
      cases h
      rfl

/-- What there is to draw in a stage: nothing, the ride for a tilt, or the load of a sample. -/
inductive Part : Sketch HudError → Prop
  | nothing : Part []
  | ride {tilts : Array Float} {v : View} {tilt : Float} (h : currentTilt tilts v = .ok tilt)
      (size : Float × Float) : Part (content tilts v size)
  | load {v : View} {s : Sample Float} (buckets : List (Bucket Float)) (h : v.current? = some s)
      (cursor : Cursor) : Part (overlay buckets v cursor).1

theorem Part.tidy {sketch : Sketch HudError} (h : Part sketch) : sketch.Tidy := by
  cases h with
  | nothing => exact .nil
  | ride htilt size => exact tidy_content htilt size
  | load buckets hcurrent cursor => exact tidy_overlay buckets hcurrent cursor

end Swingboat

/-! ## Frames -/

namespace Context

open Swingboat

variable {settings : Settings} {samples : List (Sample Float)} {ctx : Context}

/-- The hooks for the next frame are tidy. -/
def Tidy (ctx : Context) : Prop := ∀ s ∈ ctx.stages, ∀ size, (ctx.hooks s size).Tidy

/-- Without a strategy there are no stages, so there is nothing that is drawn in one. -/
theorem part_of_no_scene (h : ctx.scene = none) :
    ∀ s ∈ ctx.stages, ∀ size, Part (ctx.hooks s size) := by
  intro stage hstage size
  rcases ctx.stages_cases with ⟨hstages, -⟩ | ⟨-, s, name, scene, -, hscene⟩
  · rw [hstages] at hstage
    cases hstage
  · rw [h] at hscene
    cases hscene

/-- A swing ride draws its parts: a frame without a current sample has no stages. -/
theorem part_of_swingboat {registry : Registry}
    (hmode : registry.get? settings.hud.mode = some .swingboat)
    (h : create registry settings samples = .ok ctx) (requests : List Request) :
    ∀ s ∈ (ctx.after requests).stages, ∀ size, Part ((ctx.after requests).hooks s size) := by
  have hsamples := samples_after h requests
  obtain ⟨buckets, -, rfl⟩ := exists_sceneOf hmode h
  intro stage hstage size
  rcases stages_cases _ with ⟨hstages, -⟩ | ⟨-, s, -, -, hcurrent, -⟩
  · rw [hstages] at hstage
    cases hstage
  · have htilt := currentTilt_eq hcurrent
    rw [hsamples] at htilt
    rw [hooks_eq _ (scene_after _ requests)]
    cases stage with
    | content => exact .ride htilt size
    | overlay => exact .load buckets hcurrent _

/-- So do the usual strategies. -/
theorem part_of_usual (h : create .usual settings samples = .ok ctx) (requests : List Request) :
    ∀ s ∈ (ctx.after requests).stages, ∀ size, Part ((ctx.after requests).hooks s size) := by
  cases hmode : settings.hud.mode with
  | swingboat => exact part_of_swingboat (by rw [hmode]; rfl) h requests
  | normal =>
      obtain ⟨scene, rfl, hscene⟩ := exists_eq_of_create h
      rw [hmode] at hscene
      exact part_of_no_scene ((scene_after _ requests).trans hscene)
  | booster =>
      obtain ⟨scene, rfl, hscene⟩ := exists_eq_of_create h
      rw [hmode] at hscene
      obtain ⟨drawn, hprepare, rfl⟩ := hscene
      cases hprepare
      intro stage _ size
      rw [hooks_eq _ (scene_after _ requests)]
      cases stage <;> exact .nothing

/-- A swing ride is tidy. -/
theorem tidy_of_swingboat {registry : Registry}
    (hmode : registry.get? settings.hud.mode = some .swingboat)
    (h : create registry settings samples = .ok ctx) (requests : List Request) :
    (ctx.after requests).Tidy :=
  fun s hs size => (part_of_swingboat hmode h requests s hs size).tidy

/-- The usual strategies are tidy. -/
theorem tidy_of_usual (h : create .usual settings samples = .ok ctx) (requests : List Request) :
    (ctx.after requests).Tidy :=
  fun s hs size => (part_of_usual h requests s hs size).tidy

/-- **Frames of the usual strategies are aborted cleanly.** After any requests, a frame on a recording
canvas leaves the saved states as they were, and its saves and restores match. If it fails, the
first painting of the kind that fails has done it, in the stage that the error names, and the frame
consists of nothing but restores from there on; without a painting of that kind it does not fail. -/
theorem frames_abort_cleanly (h : create .usual settings samples = .ok ctx)
    (requests : List Request) (r : Recording) :
    let now := ctx.after requests
    ∃ turns, now.Protocol r turns ∧
      let ops := .clear :: turns.flatMap Turn.bracketed
      (now.render r).2.2.ops = r.ops ++ ops ∧
      (now.render r).2.2.depth = r.depth ∧
      Balanced ops ∧
      (∀ e, (now.render r).1 = .error e → ∃ p before n turn, r.failing = some p ∧
        ops = before ++ .apply p :: List.replicate n .restore ∧ .apply p ∉ before ∧
        turn ∈ turns ∧ .apply p ∈ turn.ops ∧ e = .stage turn.stage (.canvas (.requested p))) ∧
      ((∀ p, r.failing = some p → .apply p ∉ ops) → (now.render r).1 = .ok ()) := by
  intro now
  have htidy : now.Tidy := tidy_of_usual h requests
  obtain ⟨turns, hplays, hcanvas⟩ := now.exists_turns r
  have hprotocol := hplays.protocol hcanvas
  have hbalanced : Balanced (.clear :: turns.flatMap Turn.bracketed) :=
    (balanced_singleton rfl).append (hplays.balanced htidy)
  obtain ⟨s, hends⟩ := hplays.ends htidy
  have hframe := hends.prepend (succeed_singleton rfl : Succeed [.clear] r)
  refine ⟨turns, hprotocol, ?_, ?_, hbalanced, ?_⟩
  · rw [hcanvas, Recording.ops_after]
  · rw [hcanvas, Recording.depth_of_balanced hbalanced]
  · rcases Recording.ends_cases hframe with ⟨hok, -⟩ | ⟨p, before, n, hp, hresult, hops, hfirst⟩
    · rw [hok]
      exact ⟨nofun, fun _ => rfl⟩
    · rw [hresult] at hplays
      refine ⟨fun e he => ?_, fun hnone => ?_⟩
      · -- The turn that failed has an operation of the kind that fails, and there is one kind.
        obtain ⟨t, ht, p', hp', hmem, he'⟩ := hplays.exists_failed htidy
        obtain rfl : p = p' := Option.some.inj (hp.symm.trans hp')
        rw [hresult, he'] at he
        cases he
        exact ⟨p, before, n, t, hp, hops, hfirst, ht, hmem, rfl⟩
      · have hmem : .apply p ∈ before ++ .apply p :: List.replicate n .restore :=
          List.mem_append_right _ List.mem_cons_self
        rw [← hops] at hmem
        exact absurd hmem (hnone p hp)

/-- The gondola is drawn, and the frame that cannot clip is not: the saved state that the canvas
comes with is the only one that it is left with. -/
theorem abort_of_unclipped :
    ∃ ctx, create .usual { hud.mode := .swingboat } shortRide = .ok ctx ∧
      let r : Recording := { unclipped with ops := [.save], depth := 1 }
      let frame := (ctx.after [.seek 20000]).render r
      frame.1 = .error (.stage .content (.canvas (.requested .clip))) ∧
        frame.2.2.depth = 1 ∧
        ∃ before n, frame.2.2.ops = .save :: before ++ .apply .clip :: List.replicate n .restore ∧
          .apply .clip ∉ before := by
  have hcreate : ∃ ctx, create .usual { hud.mode := .swingboat } shortRide = .ok ctx := ⟨_, rfl⟩
  obtain ⟨ctx, hctx⟩ := hcreate
  refine ⟨ctx, hctx, ?_⟩
  intro r frame
  obtain ⟨turns, -, hops, hdepth, -, hfailed, -⟩ := frames_abort_cleanly hctx [.seek 20000] r
  have herror : frame.1 = .error (.stage .content (.canvas (.requested .clip))) := by
    cases hctx
    rfl
  obtain ⟨p, before, n, t, hp, hbefore, hfirst, -⟩ := hfailed _ herror
  obtain rfl : Painting.clip = p := Option.some.inj hp
  refine ⟨herror, hdepth, before, n, ?_, hfirst⟩
  rw [show frame.2.2.ops = _ from hops, hbefore]
  rfl

end Context

end RideHud
