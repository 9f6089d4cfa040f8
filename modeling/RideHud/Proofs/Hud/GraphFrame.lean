import RideHud.Proofs.Draw.Stroke
import RideHud.Proofs.Hud.Graph
import RideHud.Proofs.Hud.Pushed
import RideHud.Proofs.Settings.Check

/-!
# The graph in a frame

In a frame of a swing ride the graph alone sets a gradient, and what it draws with that is its line
(`Swingboat.strokes_content`, `Swingboat.strokes_readout`). So a frame draws the line whenever it
gets to set the gradient, be it aborted later or not, and the line has a point for each bucket in
the window (`Context.graph_draws_window`).
-/

namespace RideHud

/-! ## The line -/

namespace LoadGraph

/-- The pen is moved to the first of some points, and from there a line goes on to each other
one. -/
def polyline (points : List (Float × Float)) : List Op :=
  points.mapIdx fun k p => if k = 0 then .moveTo p.1 p.2 else .lineTo p.1 p.2

theorem line_eq_polyline (window : Micros) (maxLoad : Float) (buckets : List (Bucket Float))
    (anchor : ℕ) :
    line window maxLoad buckets anchor = polyline (points window maxLoad buckets anchor) := by
  unfold line polyline
  cases points window maxLoad buckets anchor with
  | nil => rfl
  | cons p ps =>
      rw [List.mapIdx_cons, if_pos rfl]
      refine congrArg (_ :: ·) (List.ext_getElem (by simp) fun k _ _ => ?_)
      simp

/-- A line is made of moves of the pen. -/
theorem all_polyline {p : Op → Bool} (hmove : ∀ x y, p (.moveTo x y) = true)
    (hline : ∀ x y, p (.lineTo x y) = true) (points : List (Float × Float)) :
    (polyline points).all p = true := by
  rw [List.all_eq_true]
  intro op hop
  obtain ⟨k, hk, rfl⟩ := List.mem_mapIdx.mp hop
  split
  · exact hmove _ _
  · exact hline _ _

/-- The graph draws its line with a gradient. -/
theorem strokes_sketch (graph : Settings.Graph) (buckets : List (Bucket Float)) (anchor : ℕ) :
    Strokes (polyline (points graph.window graph.maxLoad buckets anchor))
      (sketch graph buckets anchor).ops := by
  unfold sketch
  rw [line_eq_polyline]
  have hplain : ((polyline (points graph.window graph.maxLoad buckets anchor) ++
      [Op.apply .stroke]).all fun op => !op.setsGradient) = true := by
    rw [List.all_append, all_polyline (fun _ _ => rfl) fun _ _ => rfl]
    rfl
  have hclip : Strokes (polyline (points graph.window graph.maxLoad buckets anchor))
      [.rectangle 0 0 width height, .apply .clip, .lineWidth 6] := strokes_of_all rfl
  exact .saved (hclip.append (strokes_cons List.prefix_rfl hplain _)).calls (strokes_calls rfl)

/-- The graph sets a gradient. -/
theorem exists_gradient (graph : Settings.Graph) (buckets : List (Bucket Float)) (anchor : ℕ) :
    ∃ op ∈ (sketch graph buckets anchor).ops, op.setsGradient = true := by
  refine ⟨.paint (.linear (0, level graph.maxLoad graph.redline) (0, height)
    [⟨0, .pureRed⟩, ⟨0.5, .yellow⟩, ⟨1, .pureGreen⟩]), ?_, rfl⟩
  simp [sketch]

end LoadGraph

/-! ## The swing ride -/

namespace Swingboat

/-- The ride is drawn without a gradient. -/
theorem strokes_ride (line : List Op) (rotation : Float) : Strokes line (ride rotation).ops :=
  .saved (strokes_calls rfl) (.saved (strokes_calls rfl) (strokes_calls rfl))

theorem strokes_content (line : List Op) (tilts : Array Float) (v : View) (size : Float × Float) :
    Strokes line (content tilts v size).ops := by
  unfold content
  cases currentTilt tilts v with
  | error e => exact strokes_of_all rfl
  | ok tilt =>
      exact .saved ((strokes_calls rfl).sketch_append (strokes_ride line _)) (strokes_of_all rfl)

/-- The load is drawn without one, too, but for the graph. -/
theorem strokes_readout (buckets : List (Bucket Float)) (v : View) (anchor : ℕ)
    (s : Sample Float) :
    Strokes (LoadGraph.polyline (LoadGraph.points v.settings.graph.window v.settings.graph.maxLoad
      buckets anchor)) (readout buckets v (some anchor) s).ops := by
  have hgraph := LoadGraph.strokes_sketch v.settings.graph buckets anchor
  unfold readout
  refine .saved (.sketch_append (strokes_calls rfl) (.saved ?_ (strokes_of_all rfl)))
    (strokes_of_all rfl)
  exact .sketch_append (strokes_calls rfl) hgraph

end Swingboat

/-! ## Turns -/

namespace Context

variable {hook : Stage → Float × Float → Sketch HudError} {script : List Stage} {turns : List Turn}

/-- If the hooks draw a line, then so do their turns on a recording canvas, even if one fails. -/
theorem Plays.strokes {line : List Op} {r : Recording} {result : Except HudError Unit}
    (h : Plays hook script r turns result) (htidy : ∀ s ∈ script, ∀ size, (hook s size).Tidy)
    (hline : (line.all fun op => !op.paints) = true)
    (hhook : ∀ s ∈ script, ∀ size, Strokes line (hook s size).ops) :
    Strokes line (turns.flatMap Turn.bracketed) := by
  induction h with
  | done => exact strokes_of_all rfl
  | drawn hturn _ ih =>
      have hops :=
        (hhook _ List.mem_cons_self _).of_draws hline (htidy _ List.mem_cons_self _) hturn
      rw [List.flatMap_cons]
      exact hops.bracket.append (ih (fun s hs => htidy s (List.mem_cons_of_mem _ hs))
        fun s hs => hhook s (List.mem_cons_of_mem _ hs))
  | failed hturn =>
      have hops :=
        (hhook _ List.mem_cons_self _).of_draws hline (htidy _ List.mem_cons_self _) hturn
      rw [List.flatMap_singleton]
      exact hops.bracket

/-- Turns that end well perform all operations of their hooks. -/
theorem Plays.ops_subset {C : Type} [Canvas C] {c : C} {result : Except HudError Unit}
    (h : Plays hook script c turns result) (hok : result = .ok ())
    (htidy : ∀ s ∈ script, ∀ size, (hook s size).Tidy) :
    ∀ s ∈ script, ∃ size, (hook s size).ops ⊆ turns.flatMap Turn.bracketed := by
  induction h with
  | done => nofun
  | @drawn s script c ops turns _ hturn _ ih =>
      intro s' hs
      rw [List.flatMap_cons]
      rcases List.mem_cons.mp hs with rfl | hs
      · rcases Sketch.Draws.ops_cases hturn (htidy _ List.mem_cons_self _) with
          ⟨-, hops⟩ | ⟨_, _, _, _, herror, -⟩
        · refine ⟨Canvas.size c, fun op hop => List.mem_append_left _ ?_⟩
          rw [show (hook s' (Canvas.size c)).ops = ops from hops.symm] at hop
          exact List.mem_append_left _ (List.mem_cons_of_mem _ hop)
        · cases herror
      · obtain ⟨size, hsize⟩ := ih hok (fun s hs => htidy s (List.mem_cons_of_mem _ hs)) s' hs
        exact ⟨size, List.Subset.trans hsize (List.subset_append_right _ _)⟩
  | failed _ => cases hok

/-! ## Frames -/

/-- A frame draws the line that its hooks draw, on every recording canvas. If it ends well, as it
does unless the canvas was told to fail, it performs all operations of its hooks. -/
theorem exists_ops_of_strokes {ctx : Context} {line : List Op} (htidy : ctx.Tidy)
    (hline : (line.all fun op => !op.paints) = true)
    (hhooks : ∀ stage size, Strokes line (ctx.hooks stage size).ops) (r : Recording) :
    ∃ ops, (ctx.render r).2.2.ops = r.ops ++ ops ∧ Strokes line ops ∧
      (r.failing = none → (ctx.render r).1 = .ok ()) ∧
      ((ctx.render r).1 = .ok () →
        ∀ stage ∈ ctx.stages, ∃ size, (ctx.hooks stage size).ops ⊆ ops) := by
  obtain ⟨turns, hplays, hcanvas⟩ := ctx.exists_turns r
  refine ⟨.clear :: turns.flatMap Turn.bracketed, by rw [hcanvas, Recording.ops_after], ?_,
    fun hr => ?_, fun hok stage hstage => ?_⟩
  · exact (strokes_of_all rfl : Strokes line [.clear]).append
      (hplays.strokes htidy hline fun stage _ => hhooks stage)
  · obtain ⟨_, hends⟩ := hplays.ends htidy
    exact ((Recording.reliable_of_failing_eq_none hr).after [.clear]).eq_ok hends
  · obtain ⟨size, hsize⟩ := hplays.ops_subset hok htidy stage hstage
    exact ⟨size, List.subset_cons_of_subset _ hsize⟩

open Swingboat
open scoped RideHud.Exact

variable {registry : Registry} {settings : Settings} {samples : List (Sample Float)}
  {ctx : Context} {requests : List Request} {place : ℕ} {time : Micros}

/-- In a frame of a swing ride that shows a place of the recording, the content is drawn and then
the load of the sample there, with a graph that ends at the anchor unless there are no buckets. -/
theorem exists_hooks_of_recorded (hmode : registry.get? settings.hud.mode = some .swingboat)
    (h : create registry settings samples = .ok ctx)
    (hsource : (ctx.after requests).view.source = .recorded place time) :
    ∃ s buckets, samples[place]? = some s ∧ Swingboat.buckets samples = .ok buckets ∧
      (buckets.Pairwise fun b c => b.time < c.time) ∧
      let now := ctx.after requests
      now.view.settings = settings ∧ now.stages = [.content, .overlay] ∧
      (∀ size, now.hooks .content size = content (tilts samples) now.view size) ∧
      (buckets ≠ [] → ∃ anchor, LoadGraph.IsAnchor buckets s.time anchor ∧
        ∀ size, now.hooks .overlay size = readout buckets now.view (some anchor) s) := by
  obtain ⟨buckets, hbuckets, hctx⟩ := exists_sceneOf hmode h
  have hscene : ctx.scene = some (Strategy.swingboat.name, sceneOf samples buckets) := by rw [hctx]
  have hscene' := (scene_after ctx requests).trans hscene
  have hordered := pairwise_buckets hbuckets
  have hcursor := (resumes_after hordered hscene (fun _ _ _ => rfl)
    (by rw [hctx]; exact LoadGraph.resumes_start buckets) requests).2
  obtain ⟨-, ⟨s, hs, -⟩, -⟩ := (sound_of_create h).after requests place time hsource
  have hcurrent : (ctx.after requests).view.current? = some s := by
    rw [View.current?, hsource]
    exact hs
  refine ⟨s, buckets, samples_after h requests ▸ hs, hbuckets, hordered, ?_, ?_, fun size => ?_,
    fun hne => ?_⟩
  · rw [view_after, view_of_create h]
  · rw [stages, hcurrent, hscene']
    rfl
  · rw [hooks_eq _ hscene']
    rfl
  · obtain ⟨_, hoverlay, -, hsome⟩ := exists_overlay_of_recorded hordered hcursor hsource hs
    obtain ⟨anchor, rfl, hanchor⟩ := hsome hne
    refine ⟨anchor, hanchor, fun size => ?_⟩
    rw [hooks_eq _ hscene']
    exact hoverlay

/-- **The graph draws its window.** Let the settings pass the checks, and let a place of the
recording be current, after any requests to a swing ride. If there are buckets, then there is an
anchor, and the graph has a point for each bucket in the window that ends with it, from the anchor
back to the second one. A frame on a recording canvas goes through these points between setting a
gradient and the next stroke, even if it is aborted. It sets a gradient if it ends well, as it does
unless the canvas was told to fail. With exact arithmetic, for whatever buckets of the same times,
the line begins at the right edge, goes to the left, and does not leave the graph there or at the
bottom. -/
theorem graph_draws_window (hmode : registry.get? settings.hud.mode = some .swingboat)
    (hsettings : settings.problem? = none) (h : create registry settings samples = .ok ctx)
    (hsource : (ctx.after requests).view.source = .recorded place time) :
    ∃ s buckets, samples[place]? = some s ∧ Swingboat.buckets samples = .ok buckets ∧
      (buckets ≠ [] → ∃ anchor last, LoadGraph.IsAnchor buckets s.time anchor ∧
        buckets[anchor]? = some last ∧
        let graph := settings.graph
        let places := LoadGraph.places graph.window (buckets.map Bucket.time) anchor
        let points := LoadGraph.points graph.window graph.maxLoad buckets anchor
        List.Forall₂ (LoadGraph.IsPoint graph.window graph.maxLoad buckets last.time) places
          points ∧
        (∀ r : Recording,
          let frame := (ctx.after requests).render r
          ∃ ops, frame.2.2.ops = r.ops ++ ops ∧ Strokes (LoadGraph.polyline points) ops ∧
            (r.failing = none → frame.1 = .ok ()) ∧
            (frame.1 = .ok () → ∃ op ∈ ops, op.setsGradient = true)) ∧
        ∀ bs : List (Bucket ℝ), bs.map Bucket.time = buckets.map Bucket.time →
          let points := LoadGraph.points graph.window (Binary64.value graph.maxLoad) bs anchor
          List.Forall₂ (LoadGraph.IsPoint graph.window (Binary64.value graph.maxLoad) bs
            last.time) places points ∧
          LoadGraph.Inside points) := by
  obtain ⟨s, buckets, hs, hbuckets, hordered, hkept, hstages, hcontent, hgraph⟩ :=
    exists_hooks_of_recorded hmode h hsource
  refine ⟨s, buckets, hs, hbuckets, fun hne => ?_⟩
  obtain ⟨anchor, hanchor, hoverlay⟩ := hgraph hne
  have hlast := List.getElem?_eq_getElem hanchor.lt
  refine ⟨anchor, _, hanchor, hlast, LoadGraph.forall₂_points hordered hlast, fun r => ?_,
    fun bs htimes => ?_⟩
  · have hhooks (stage : Stage) (size : Float × Float) :
        Strokes (LoadGraph.polyline (LoadGraph.points settings.graph.window settings.graph.maxLoad
          buckets anchor)) ((ctx.after requests).hooks stage size).ops := by
      cases stage with
      | content =>
          rw [hcontent]
          exact strokes_content _ _ _ _
      | overlay =>
          rw [hoverlay, ← hkept]
          exact strokes_readout buckets _ anchor s
    have hmoves := LoadGraph.all_polyline (p := fun op => !op.paints) (fun _ _ => rfl)
      (fun _ _ => rfl) (LoadGraph.points settings.graph.window settings.graph.maxLoad buckets anchor)
    obtain ⟨ops, hops, hstrokes, hreliable, hall⟩ :=
      exists_ops_of_strokes (tidy_of_swingboat hmode h requests) hmoves hhooks r
    refine ⟨ops, hops, hstrokes, hreliable, fun hok => ?_⟩
    -- The gradient is set in the overlay, which a frame that ends well has drawn.
    obtain ⟨size, hsize⟩ := hall hok .overlay (by rw [hstages]; simp)
    obtain ⟨op, hop, hgradient⟩ := LoadGraph.exists_gradient settings.graph buckets anchor
    obtain ⟨before, after, hparts⟩ := exists_ops_readout buckets (ctx.after requests).view s
    rw [hoverlay, hparts, hkept] at hsize
    exact ⟨op, hsize (List.mem_append_left _ (List.mem_append_right _ hop)), hgradient⟩
  · have hsensible := Settings.problem?_eq_none_iff.mp hsettings
    exact LoadGraph.exact_points hordered hlast htimes hsensible.window_pos
      (Binary64.value_nonneg_of_pos hsensible.maxLoad_pos)

/-- The first of three samples that can be found lies between the second bucket and the last one, so
the line goes from the last one to the second. -/
theorem graph_of_shortRide :
    ∃ ctx, Registry.usual.get? .swingboat = some .swingboat ∧
      ({ hud.mode := .swingboat } : Settings).problem? = none ∧
      create .usual { hud.mode := .swingboat } shortRide = .ok ctx ∧
      let now := ctx.after (restless ++ [.seek 20000])
      now.view.source = .recorded 1 20000 ∧
      ∃ buckets p q, Swingboat.buckets shortRide = .ok buckets ∧ buckets ≠ [] ∧
        LoadGraph.points 10000000 3 buckets 2 = [p, q] ∧
        ∀ r : Recording, ∃ ops, (now.render r).2.2.ops = r.ops ++ ops ∧
          Strokes [.moveTo p.1 p.2, .lineTo q.1 q.2] ops ∧
          (r.failing = none → ∃ op ∈ ops, op.setsGradient = true) := by
  have hmode : Registry.usual.get? .swingboat = some .swingboat := rfl
  have hsettings : ({ hud.mode := .swingboat } : Settings).problem? = none := by decide +kernel
  have hcreate : ∃ ctx, create .usual { hud.mode := .swingboat } shortRide = .ok ctx := ⟨_, rfl⟩
  obtain ⟨ctx, hctx⟩ := hcreate
  have hsource := source_after_seek hctx restless
    (show Timeline.lookup shortRide 0 20000 = .ok 1 from rfl)
  obtain ⟨s, buckets, hs, hbuckets, hgraph⟩ := graph_draws_window hmode hsettings hctx hsource
  obtain rfl : reading 50000 = s := Option.some.inj hs
  have htimes : (Swingboat.buckets shortRide).toOption.map (List.map Bucket.time)
      = some [16666, 49999, 83332] := by
    decide +kernel
  rw [hbuckets] at htimes
  replace htimes : buckets.map Bucket.time = [16666, 49999, 83332] := Option.some.inj htimes
  have hlen : buckets.length = 3 := by
    rw [← List.length_map (f := Bucket.time), htimes]
    rfl
  have hne : buckets ≠ [] := by
    rintro rfl
    cases hlen
  obtain ⟨anchor, last, hanchor, hlast, hpoints, hframes, -⟩ := hgraph hne
  obtain rfl : anchor = 2 := by
    have hlt := hanchor.lt
    rcases hanchor.ends with ⟨hpos, b, hb, hlater⟩ | ⟨hend, -⟩
    · by_contra hne
      obtain rfl : anchor = 1 := by omega
      have htime : (buckets.map Bucket.time)[1]? = some 49999 := by
        rw [htimes]
        rfl
      rw [List.getElem?_map, hb, Option.map_some] at htime
      rw [Option.some.inj htime] at hlater
      exact absurd hlater (by decide)
    · omega
  have hplaces : LoadGraph.places 10000000 [16666, 49999, 83332] 2 = [2, 1] := by decide
  rw [htimes, show ({ hud.mode := .swingboat } : Settings).graph.window = 10000000 from rfl,
    hplaces] at hpoints
  obtain ⟨p, ps, -, hrest, hp⟩ := List.forall₂_cons_left_iff.mp hpoints
  obtain ⟨q, qs, -, hnil, rfl⟩ := List.forall₂_cons_left_iff.mp hrest
  obtain rfl := List.forall₂_nil_left_iff.mp hnil
  replace hp : LoadGraph.points 10000000 3 buckets 2 = [p, q] := hp
  refine ⟨ctx, hmode, hsettings, hctx, hsource, buckets, p, q, hbuckets, hne, hp, fun r => ?_⟩
  obtain ⟨ops, hops, hstrokes, hreliable, hgradient⟩ := hframes r
  refine ⟨ops, hops, ?_, fun hr => hgradient (hreliable hr)⟩
  rw [show LoadGraph.points _ _ buckets 2 = [p, q] from hp] at hstrokes
  exact hstrokes

end Context

end RideHud
