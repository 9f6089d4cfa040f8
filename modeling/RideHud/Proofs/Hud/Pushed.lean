import RideHud.Proofs.Hud.Cursor

/-!
# Samples from the recording and from outside

A sample of the recording can be shown in two ways: its place is found by a search, or it is pushed.
The tilt is then looked up or computed, which is the same (`Swingboat.currentTilt_eq`), and a graph
is drawn or not, which is a part of the overlay of its own (`Swingboat.exists_ops_readout`). So both
frames are the same but for the graph (`pushed_lacks_graph_only`).
-/

namespace RideHud

/-! ## Turns on a canvas that does not fail -/

namespace Recording

/-- Operations do not change the size of a canvas. -/
theorem size_after (ops : List Op) (r : Recording) :
    Canvas.size (Canvas.after ops r) = Canvas.size r := by
  induction ops generalizing r with
  | nil => rfl
  | cons op ops ih => exact ih _

end Recording

namespace Context

variable {C : Type} [Canvas C] {hook : Stage → Float × Float → Sketch HudError}
  {script : List Stage} {turns : List Turn} {result : Except HudError Unit} {c : C}

/-- On a canvas that does not fail, tidy hooks take all their turns, each with the operations of its
sketch. -/
theorem Plays.eq_map (h : Plays hook script c turns result)
    (htidy : ∀ s ∈ script, ∀ size, (hook s size).Tidy) (hc : Canvas.Reliable c)
    (hsize : ∀ ops, Canvas.size (Canvas.after ops c) = Canvas.size c) :
    result = .ok () ∧
      turns = script.map fun s => ⟨s, (hook s (Canvas.size c)).ops, .ok ()⟩ := by
  induction h with
  | done => exact ⟨rfl, rfl⟩
  | drawn hturn _ ih =>
      obtain ⟨-, hops⟩ :=
        Sketch.Draws.eq_ops hturn (htidy _ List.mem_cons_self _) (hc.after [.save])
      obtain ⟨hok, hrest⟩ := ih (fun s hs => htidy s (List.mem_cons_of_mem _ hs)) (hc.after _)
        fun ops => by rw [← Canvas.after_append, hsize, hsize]
      refine ⟨hok, ?_⟩
      rw [hrest, hsize, List.map_cons, ← hops]
  | failed hturn =>
      obtain ⟨hok, -⟩ :=
        Sketch.Draws.eq_ops hturn (htidy _ List.mem_cons_self _) (hc.after [.save])
      cases hok

end Context

/-! ## The swing ride -/

namespace Swingboat

variable {buckets : List (Bucket Float)} {v v' : View} {s : Sample Float}

/-- The ride depends on the settings and on the current sample. -/
theorem content_congr (hsettings : v.settings = v'.settings) (hsamples : v.samples = v'.samples)
    (h : v.current? = some s) (h' : v'.current? = some s) (size : Float × Float) :
    content (tilts v.samples) v size = content (tilts v.samples) v' size := by
  have htilt := currentTilt_eq h'
  rw [← hsamples] at htilt
  unfold content
  rw [currentTilt_eq h, htilt, View.density, View.density, hsettings]

/-- The load depends on the settings only, but for the graph. -/
theorem readout_congr (hsettings : v.settings = v'.settings) (anchor : Option ℕ) :
    readout buckets v anchor s = readout buckets v' anchor s := by
  unfold readout
  rw [View.textDensity, View.textDensity, hsettings]

/-- The operations of the graph, if there is one. -/
def graphOps (graph : Settings.Graph) (buckets : List (Bucket Float)) : Option ℕ → List Op
  | some anchor => (LoadGraph.sketch graph buckets anchor).ops
  | none => []

/-- The graph is one part of the load, and the other parts do not depend on it. -/
theorem exists_ops_readout (buckets : List (Bucket Float)) (v : View) (s : Sample Float) :
    ∃ before after, ∀ anchor,
      (readout buckets v anchor s).ops
        = before ++ graphOps v.settings.graph buckets anchor ++ after := by
  refine ⟨untilGraph v s, [.restore, .restore], fun anchor => ?_⟩
  unfold readout
  simp only [Sketch.ops_saved_cons, Sketch.ops_append, Sketch.ops_calls, Sketch.ops_nil,
    List.append_nil, List.append_assoc, List.cons_append, List.nil_append]
  cases anchor with
  | none => rfl
  | some anchor => rfl

/-- The graph of a swing ride ends at its anchor, unless there are no buckets. -/
theorem exists_overlay_of_recorded {cursor : Cursor} {place : ℕ} {time : Micros}
    (hordered : buckets.Pairwise fun b c => b.time < c.time)
    (hcursor : LoadGraph.Resumes buckets cursor) (hsource : v.source = .recorded place time)
    (hs : v.samples[place]? = some s) :
    ∃ anchor, (overlay buckets v cursor).1 = readout buckets v anchor s ∧
      (buckets = [] → anchor = none) ∧
      (buckets ≠ [] → ∃ last, anchor = some last ∧ LoadGraph.IsAnchor buckets s.time last) := by
  have hcurrent : v.current? = some s := by
    rw [View.current?, hsource]
    exact hs
  by_cases hne : buckets = []
  · subst hne
    refine ⟨none, ?_, fun _ => rfl, fun hne => absurd rfl hne⟩
    have hnone : anchor? [] v cursor = none := by
      simp [anchor?, View.place?, hsource, LoadGraph.anchor?_nil]
    rw [overlay, hcurrent]
    dsimp only
    rw [hnone]
  · obtain ⟨last, hfound, hlast⟩ := LoadGraph.exists_isAnchor hordered hne hcursor s.time
    refine ⟨some last, ?_, fun hnil => absurd hnil hne, fun _ => ⟨last, rfl, hlast⟩⟩
    have hsome : anchor? buckets v cursor = some (last, ⟨s.time, last⟩) := by
      simp [anchor?, View.place?, hsource, hs, hfound]
    rw [overlay, hcurrent]
    dsimp only
    rw [hsome]

/-- A sample from outside has no graph. -/
theorem overlay_of_pushed (hsource : v.source = .pushed s) (cursor : Cursor) :
    (overlay buckets v cursor).1 = readout buckets v none s := by
  have hcurrent : v.current? = some s := by rw [View.current?, hsource]
  have hnone : anchor? buckets v cursor = none := by simp [anchor?, View.place?, hsource]
  rw [overlay, hcurrent]
  dsimp only
  rw [hnone]

end Swingboat

/-! ## Frames -/

namespace Context

open Swingboat

variable {registry : Registry} {settings : Settings} {samples : List (Sample Float)}
  {ctx : Context}

/-- On a recording canvas that does not fail, a frame of tidy hooks consists of the operations of
the content and of those of the overlay. -/
theorem protocol_of_tidy {name : String} {scene : Scene} {s : Sample Float} {r : Recording}
    (htidy : ctx.Tidy) (hcurrent : ctx.view.current? = some s)
    (hscene : ctx.scene = some (name, scene)) (hr : r.failing = none) :
    ctx.Protocol r
      [⟨.content, (scene.content ctx.view (Canvas.size r)).ops, .ok ()⟩,
        ⟨.overlay, (scene.overlay ctx.view (Canvas.size r) ctx.cursor).1.ops, .ok ()⟩] := by
  obtain ⟨turns, hplays, hcanvas⟩ := ctx.exists_turns r
  have hreliable := (Recording.reliable_of_failing_eq_none hr).after [.clear]
  obtain ⟨-, hturns⟩ := hplays.eq_map htidy hreliable fun ops => Recording.size_after ops _
  have hstages : ctx.stages = [.content, .overlay] := by
    rw [stages, hcurrent, hscene]
    rfl
  have hprotocol := hplays.protocol hcanvas
  rwa [hturns, hstages, ctx.hooks_eq hscene] at hprotocol

/-- A sample that was pushed is current, and nothing else has changed. -/
theorem view_after_push (ctx : Context) (requests : List Request) (s : Sample Float) :
    (ctx.after (requests ++ [.push s])).view = { ctx.view with source := .pushed s } := by
  rw [after_append]
  show { (ctx.after requests).view with source := .pushed s } = _
  rw [view_after]

/-- **A sample is drawn the same from the recording and from outside, but for the graph.** Let a
place of the recording be current, after any requests. It has a sample, and whenever that sample is
pushed instead, after whatever other requests, the frames on equal recording canvases that do not
fail have the same content, and the overlay differs by one block of operations: those of the graph
that ends at the anchor for the time of the sample, or none at all if there are no buckets. -/
theorem pushed_lacks_graph_only (hmode : registry.get? settings.hud.mode = some .swingboat)
    (h : create registry settings samples = .ok ctx) {requests : List Request} {place : ℕ}
    {time : Micros} (hsource : (ctx.after requests).view.source = .recorded place time) :
    ∃ s buckets, samples[place]? = some s ∧ Swingboat.buckets samples = .ok buckets ∧
      ∀ (requests' : List Request) (r : Recording), r.failing = none →
        let recorded := ctx.after requests
        let pushed := ctx.after (requests' ++ [.push s])
        ∃ content before graph after,
          recorded.Protocol r
            [⟨.content, content, .ok ()⟩, ⟨.overlay, before ++ graph ++ after, .ok ()⟩] ∧
          pushed.Protocol r
            [⟨.content, content, .ok ()⟩, ⟨.overlay, before ++ after, .ok ()⟩] ∧
          (buckets = [] → graph = []) ∧
          (buckets ≠ [] → ∃ anchor, LoadGraph.IsAnchor buckets s.time anchor ∧
            graph = (LoadGraph.sketch settings.graph buckets anchor).ops) := by
  obtain ⟨buckets, hbuckets, hctx⟩ := exists_sceneOf hmode h
  have hscene : ctx.scene = some (Strategy.swingboat.name, sceneOf samples buckets) := by rw [hctx]
  have hordered := pairwise_buckets hbuckets
  have hcursor := (resumes_after hordered hscene (fun _ _ _ => rfl)
    (by rw [hctx]; exact LoadGraph.resumes_start buckets) requests).2
  have hview := view_of_create h
  have hsamples := samples_after h requests
  have hsettings : (ctx.after requests).view.settings = settings := by rw [view_after, hview]
  obtain ⟨-, ⟨s, hs, -⟩, -⟩ := (sound_of_create h).after requests place time hsource
  refine ⟨s, buckets, hsamples ▸ hs, hbuckets, fun requests' r hr => ?_⟩
  -- What both frames are drawn from.
  have hcurrent : (ctx.after requests).view.current? = some s := by
    rw [View.current?, hsource]
    exact hs
  have hpushed : (ctx.after (requests' ++ [.push s])).view = ⟨settings, samples, .pushed s⟩ := by
    rw [view_after_push, hview]
  have hcurrent' : (ctx.after (requests' ++ [.push s])).view.current? = some s := by
    rw [hpushed, View.current?]
  have hrecorded := protocol_of_tidy (tidy_of_swingboat hmode h requests) hcurrent
    ((scene_after ctx requests).trans hscene) hr
  have houtside := protocol_of_tidy (tidy_of_swingboat hmode h _) hcurrent'
    ((scene_after ctx (requests' ++ [.push s])).trans hscene) hr
  -- The content is the same, and the overlay is the same but for the graph.
  have hcontent :
      (sceneOf samples buckets).content (ctx.after (requests' ++ [.push s])).view (Canvas.size r)
        = (sceneOf samples buckets).content (ctx.after requests).view (Canvas.size r) := by
    have hsame := content_congr (by rw [hsettings, hpushed]) (by rw [hsamples, hpushed])
      hcurrent hcurrent' (Canvas.size r)
    rw [hsamples] at hsame
    exact hsame.symm
  obtain ⟨anchor, hoverlay, hnone, hsome⟩ :=
    exists_overlay_of_recorded hordered hcursor hsource hs
  obtain ⟨before, after, hreadout⟩ := exists_ops_readout buckets (ctx.after requests).view s
  have hops : ((sceneOf samples buckets).overlay (ctx.after requests).view (Canvas.size r)
      (ctx.after requests).cursor).1.ops
        = before ++ graphOps settings.graph buckets anchor ++ after := by
    show (overlay buckets _ _).1.ops = _
    rw [hoverlay, hreadout, hsettings]
  have hops' : ((sceneOf samples buckets).overlay (ctx.after (requests' ++ [.push s])).view
      (Canvas.size r) (ctx.after (requests' ++ [.push s])).cursor).1.ops = before ++ after := by
    have hsame : readout buckets (ctx.after (requests' ++ [.push s])).view none s
        = readout buckets (ctx.after requests).view none s :=
      readout_congr (by rw [hsettings, hpushed]) none
    show (overlay buckets _ _).1.ops = _
    rw [overlay_of_pushed (by rw [hpushed]), hsame, hreadout, graphOps, List.append_nil]
  rw [hops] at hrecorded
  rw [hcontent, hops'] at houtside
  refine ⟨_, before, graphOps settings.graph buckets anchor, after, hrecorded, houtside, ?_, ?_⟩
  · intro hnil
    rw [hnone hnil, graphOps]
  · intro hne
    obtain ⟨last, rfl, hlast⟩ := hsome hne
    exact ⟨last, hlast, rfl⟩

/-- The first of three samples that can be found, seen from a HUD that has searched on and back and
from one that was only ever given samples. There is a graph, so the frames are not the same. -/
theorem pushed_of_shortRide :
    ∃ ctx, Registry.usual.get? .swingboat = some .swingboat ∧
      create .usual { hud.mode := .swingboat } shortRide = .ok ctx ∧
      let recorded := ctx.after (restless ++ [.seek 20000])
      let pushed := ctx.after [.push (reading 7), .push (reading 50000)]
      let r : Recording := { width := 64, height := 48 }
      recorded.view.source = .recorded 1 20000 ∧ r.failing = none ∧
        ∃ content before graph after, graph ≠ [] ∧
          (recorded.render r).2.2.ops = .clear :: Turn.bracketed ⟨.content, content, .ok ()⟩ ++
            Turn.bracketed ⟨.overlay, before ++ graph ++ after, .ok ()⟩ ∧
          (pushed.render r).2.2.ops = .clear :: Turn.bracketed ⟨.content, content, .ok ()⟩ ++
            Turn.bracketed ⟨.overlay, before ++ after, .ok ()⟩ := by
  have hmode : Registry.usual.get? .swingboat = some .swingboat := rfl
  have hcreate : ∃ ctx, create .usual { hud.mode := .swingboat } shortRide = .ok ctx := ⟨_, rfl⟩
  obtain ⟨ctx, hctx⟩ := hcreate
  have hsource := source_after_seek hctx restless
    (show Timeline.lookup shortRide 0 20000 = .ok 1 from rfl)
  refine ⟨ctx, hmode, hctx, hsource, rfl, ?_⟩
  obtain ⟨s, buckets, hs, hbuckets, hframes⟩ := pushed_lacks_graph_only hmode hctx hsource
  obtain rfl : reading 50000 = s := Option.some.inj hs
  obtain ⟨content, before, graph, after, hrecorded, hpushed, -, hgraph⟩ :=
    hframes [.push (reading 7)] { width := 64, height := 48 } rfl
  have hne : buckets ≠ [] := by
    rintro rfl
    have hcount := congrArg (fun b => b.toOption.map List.length) hbuckets
    cases hcount
  obtain ⟨anchor, -, hdrawn⟩ := hgraph hne
  refine ⟨content, before, graph, after, ?_, ?_, ?_⟩
  · rw [hdrawn, LoadGraph.sketch, List.singleton_append, Sketch.ops_saved_cons]
    exact List.cons_ne_nil _ _
  · rw [hrecorded.canvas_eq, Recording.ops_after, List.flatMap_cons, List.flatMap_singleton]
    rfl
  · have hops := congrArg Recording.ops hpushed.canvas_eq
    rw [Recording.ops_after, List.flatMap_cons, List.flatMap_singleton] at hops
    exact hops

end Context

end RideHud
