import RideHud.Proofs.Hud.Anchor
import RideHud.Proofs.Hud.History

/-!
# Frames of a swing ride

A frame is drawn from what the HUD sees and from the cursor of its strategy. On the swing ride the
cursor only says where the search for the anchor of the graph starts, so every cursor that earlier
frames have left draws the same (`frame_forgets_history`). A frame that fails may have left it where
it was or not, depending on how far it came.
-/

namespace RideHud

/-! ## What a frame depends on -/

namespace Context

variable {C : Type} [Canvas C] {ctx ctx' : Context}

/-- A frame without a current sample or without a scene leaves the cursor. -/
theorem render_of_bare (h : ctx.view.current? = none ∨ ctx.scene = none) (c : C) :
    (ctx.render c).1 = .ok () ∧ (ctx.render c).2.1.cursor = ctx.cursor ∧
      (ctx.render c).2.2 = (Canvas.perform .clear c).2 := by
  unfold render
  rcases h with h | h
  · rw [h]
    exact ⟨rfl, rfl, rfl⟩
  · rw [h]
    dsimp only
    split <;> exact ⟨rfl, rfl, rfl⟩

/-- A frame of a scene is the scene on a clear surface. -/
theorem render_of_scene {name : String} {scene : Scene} {s : Sample Float}
    (hcurrent : ctx.view.current? = some s) (hscene : ctx.scene = some (name, scene)) (c : C) :
    ((ctx.render c).1, (ctx.render c).2.1.cursor, (ctx.render c).2.2)
      = ctx.drawScene scene (Canvas.perform .clear c).2 := by
  unfold render
  rw [hcurrent, hscene]
  dsimp only
  rw [if_neg (by simp)]
  rcases ctx.drawScene scene (Canvas.perform .clear c).2 with ⟨_ | _, cursor, d⟩ <;> rfl

/-- Whether there is a frame to draw depends on what the HUD sees and on its strategy. -/
theorem bare_or_scene (ctx : Context) :
    (ctx.view.current? = none ∨ ctx.scene = none) ∨
      ∃ s name scene, ctx.view.current? = some s ∧ ctx.scene = some (name, scene) := by
  cases hcurrent : ctx.view.current? with
  | none => exact .inl (.inl rfl)
  | some s =>
      cases hscene : ctx.scene with
      | none => exact .inl (.inr rfl)
      | some named => exact .inr ⟨s, named.1, named.2, rfl, rfl⟩

/-- The stages depend on the cursor only as far as the overlay is drawn differently. -/
theorem drawScene_congr {scene : Scene} (hview : ctx.view = ctx'.view)
    (hoverlay : ∀ size, (scene.overlay ctx.view size ctx.cursor).1
      = (scene.overlay ctx.view size ctx'.cursor).1) (c : C) :
    (ctx.drawScene scene c).1 = (ctx'.drawScene scene c).1 ∧
      (ctx.drawScene scene c).2.2 = (ctx'.drawScene scene c).2.2 := by
  unfold drawScene
  rw [← hview]
  rcases drawStage .content (scene.content ctx.view (Canvas.size c)) c with ⟨_ | _, c'⟩
  · exact ⟨rfl, rfl⟩
  · dsimp only
    rw [hoverlay]
    exact ⟨rfl, rfl⟩

/-- **A frame depends on the cursor only as far as the overlay is drawn differently.** -/
theorem render_congr (hview : ctx.view = ctx'.view) (hscene : ctx.scene = ctx'.scene)
    (hoverlay : ∀ name scene, ctx.scene = some (name, scene) →
      ∀ size, (scene.overlay ctx.view size ctx.cursor).1
        = (scene.overlay ctx.view size ctx'.cursor).1) (c : C) :
    (ctx.render c).1 = (ctx'.render c).1 ∧ (ctx.render c).2.2 = (ctx'.render c).2.2 := by
  rcases ctx.bare_or_scene with hbare | ⟨s, name, scene, hcurrent, hs⟩
  · obtain ⟨hresult, -, hcanvas⟩ := render_of_bare hbare c
    rw [hview, hscene] at hbare
    obtain ⟨hresult', -, hcanvas'⟩ := render_of_bare hbare c
    exact ⟨hresult.trans hresult'.symm, hcanvas.trans hcanvas'.symm⟩
  · have hdraw := render_of_scene hcurrent hs c
    have hdraw' := render_of_scene (hview ▸ hcurrent) (hscene ▸ hs) c
    have hsame := drawScene_congr hview (hoverlay name scene hs) (Canvas.perform .clear c).2
    rwa [← hdraw, ← hdraw'] at hsame

/-- The stages leave the cursor where it was, or where the overlay moves it. -/
theorem cursor_drawScene (ctx : Context) (scene : Scene) (c : C) :
    (ctx.drawScene scene c).2.1 = ctx.cursor ∨
      ∃ size, (ctx.drawScene scene c).2.1 = (scene.overlay ctx.view size ctx.cursor).2 := by
  unfold drawScene
  rcases drawStage .content (scene.content ctx.view (Canvas.size c)) c with ⟨_ | _, c'⟩
  · exact .inl rfl
  · dsimp only
    split
    · exact .inr ⟨_, rfl⟩
    · exact .inl rfl

/-- What a HUD draws with: its scene stays, and its cursor stays or is moved by the overlay. -/
theorem cursor_serve (ctx : Context) (request : Request) :
    (ctx.serve request).2.scene = ctx.scene ∧
      ((ctx.serve request).2.cursor = ctx.cursor ∨
        ∃ name scene size, ctx.scene = some (name, scene) ∧
          (ctx.serve request).2.cursor = (scene.overlay ctx.view size ctx.cursor).2) := by
  cases request with
  | seek time =>
      rcases ctx.seek_cases time with ⟨e, hseek⟩ | ⟨place, -, hseek⟩ <;>
        rw [serve, hseek] <;> exact ⟨rfl, .inl rfl⟩
  | push sample => exact ⟨rfl, .inl rfl⟩
  | render c =>
      refine ⟨(ctx.render_fixes c).2, ?_⟩
      show (ctx.render c).2.1.cursor = _ ∨ ∃ name scene size, _ ∧ (ctx.render c).2.1.cursor = _
      rcases ctx.bare_or_scene with hbare | ⟨s, name, scene, hcurrent, hscene⟩
      · exact .inl (render_of_bare hbare c).2.1
      · have hcursor := congrArg (fun drawn => drawn.2.1) (render_of_scene hcurrent hscene c)
        dsimp only at hcursor
        rw [hcursor]
        rcases ctx.cursor_drawScene scene (Canvas.perform .clear c).2 with hc | ⟨size, hc⟩
        · exact .inl hc
        · exact .inr ⟨name, scene, size, hscene, hc⟩

/-- What holds of the cursor and is kept by the overlay holds after any requests. -/
theorem cursor_after {P : Cursor → Prop}
    (hkeep : ∀ name scene, ctx.scene = some (name, scene) →
      ∀ v size cursor, P cursor → P (scene.overlay v size cursor).2)
    (h : P ctx.cursor) (requests : List Request) :
    (ctx.after requests).scene = ctx.scene ∧ P (ctx.after requests).cursor := by
  induction requests generalizing ctx with
  | nil => exact ⟨rfl, h⟩
  | cons request requests ih =>
      obtain ⟨hscene, hcursor⟩ := ctx.cursor_serve request
      have hP : P (ctx.serve request).2.cursor := by
        rcases hcursor with hc | ⟨name, scene, size, hs, hc⟩
        · rwa [hc]
        · rw [hc]
          exact hkeep name scene hs _ _ _ h
      obtain ⟨hscene', hP'⟩ := ih (hscene ▸ hkeep) hP
      exact ⟨hscene'.trans hscene, hP'⟩

theorem scene_after (ctx : Context) (requests : List Request) :
    (ctx.after requests).scene = ctx.scene :=
  (cursor_after (P := fun _ => True) (fun _ _ _ _ _ _ _ => trivial) trivial requests).1

end Context

/-! ## The swing ride -/

namespace Swingboat

open Context LoadGraph

variable {registry : Registry} {settings : Settings} {samples : List (Sample Float)}
  {buckets : List (Bucket Float)} {v : View} {cursor cursor' : Cursor}

/-- The anchor of a frame, and the cursor that its search leaves, are the same from every cursor
from which a search can start; and so can the next one. -/
theorem exists_anchor?_eq (hordered : buckets.Pairwise fun b c => b.time < c.time) (v : View) :
    ∃ found, (∀ cursor, Resumes buckets cursor → Swingboat.anchor? buckets v cursor = found) ∧
      ∀ p ∈ found, Resumes buckets p.2 := by
  unfold Swingboat.anchor?
  cases v.place? with
  | none => exact ⟨none, fun _ _ => rfl, nofun⟩
  | some place =>
      cases hsample : v.samples[place]? with
      | none => exact ⟨none, fun _ _ => by simp [hsample], nofun⟩
      | some sample =>
          by_cases hne : buckets = []
          · subst hne
            exact ⟨none, fun _ _ => by simp [anchor?_nil], nofun⟩
          · -- Whatever cursor a search starts from, it ends at the one anchor there is.
            obtain ⟨anchor, -, hanchor⟩ :=
              exists_isAnchor hordered hne (resumes_start buckets) sample.time
            refine ⟨some (anchor, ⟨sample.time, anchor⟩), fun cursor h => ?_, ?_⟩
            · obtain ⟨anchor', hfound, hanchor'⟩ := exists_isAnchor hordered hne h sample.time
              obtain rfl := hanchor.unique hanchor'
              simp [hsample, hfound]
            · rintro p ⟨⟩
              exact hanchor.resumes

/-- The overlay is the same from every cursor from which a search can start, and leaves such a
cursor. -/
theorem exists_overlay_eq (hordered : buckets.Pairwise fun b c => b.time < c.time) (v : View) :
    ∃ sketch, ∀ cursor, Resumes buckets cursor →
      (overlay buckets v cursor).1 = sketch ∧ Resumes buckets (overlay buckets v cursor).2 := by
  obtain ⟨found, hfound, hresumes⟩ := exists_anchor?_eq hordered v
  unfold overlay
  cases v.current? with
  | none => exact ⟨_, fun cursor h => ⟨rfl, h⟩⟩
  | some sample =>
      cases found with
      | none => exact ⟨_, fun cursor h => by rw [hfound cursor h]; exact ⟨rfl, h⟩⟩
      | some p => exact ⟨_, fun cursor h => by rw [hfound cursor h]; exact ⟨rfl, hresumes p rfl⟩⟩

/-- The buckets of a graph are in order of time. -/
theorem pairwise_buckets (h : Swingboat.buckets samples = .ok buckets) :
    buckets.Pairwise fun b c => b.time < c.time := by
  unfold Swingboat.buckets at h
  split at h
  · cases h
    exact .nil
  · cases hb : Timeline.buckets samples bucketDuration with
    | error e =>
        rw [hb] at h
        cases h
    | ok bs =>
        rw [hb] at h
        cases h
        exact Timeline.pairwise_time_buckets hb

/-- The tilts of a recording. -/
def tilts (samples : List (Sample Float)) : Array Float :=
  (samples.map fun s => s.quat.tilt).toArray

theorem tilts_getElem? {s : Sample Float} {place : ℕ} (h : samples[place]? = some s) :
    (tilts samples)[place]? = some s.quat.tilt := by
  rw [tilts, List.getElem?_toArray, List.getElem?_map, h]
  rfl

/-- The frames of a recording: the tilts of the samples, and some buckets. -/
def sceneOf (samples : List (Sample Float)) (buckets : List (Bucket Float)) : Scene where
  content := content (tilts samples)
  overlay v _ cursor := overlay buckets v cursor

/-- A new HUD of a swing ride has cut its recording into buckets, and draws with them. -/
theorem exists_sceneOf {ctx : Context}
    (hmode : registry.get? settings.hud.mode = some .swingboat)
    (h : create registry settings samples = .ok ctx) :
    ∃ buckets, Swingboat.buckets samples = .ok buckets ∧
      ctx = { view := ⟨settings, samples, .none⟩
              scene := some (Strategy.swingboat.name, sceneOf samples buckets) } := by
  obtain ⟨scene, rfl, hscene⟩ := exists_eq_of_create h
  rw [hmode] at hscene
  obtain ⟨drawn, hprepare, rfl⟩ := hscene
  dsimp only [Strategy.swingboat, prepare] at hprepare
  cases hbuckets : Swingboat.buckets samples with
  | error e =>
      rw [hbuckets] at hprepare
      cases hprepare
  | ok buckets =>
      rw [hbuckets] at hprepare
      cases hprepare
      exact ⟨buckets, rfl, rfl⟩

/-- A new HUD of a swing ride has buckets, and draws the overlay with them. -/
theorem scene_of_create {ctx : Context} (hmode : registry.get? settings.hud.mode = some .swingboat)
    (h : create registry settings samples = .ok ctx) :
    ∃ buckets name scene, Swingboat.buckets samples = .ok buckets ∧ ctx.scene = some (name, scene) ∧
      (∀ v size cursor, scene.overlay v size cursor = overlay buckets v cursor) ∧
      ctx.cursor = {} := by
  obtain ⟨buckets, hbuckets, rfl⟩ := exists_sceneOf hmode h
  exact ⟨buckets, _, _, hbuckets, rfl, fun _ _ _ => rfl, rfl⟩

/-- Frames leave a cursor from which a search can start. -/
theorem resumes_after {ctx : Context} {name : String} {scene : Scene}
    (hordered : buckets.Pairwise fun b c => b.time < c.time)
    (hscene : ctx.scene = some (name, scene))
    (hoverlay : ∀ v size cursor, scene.overlay v size cursor = overlay buckets v cursor)
    (h : Resumes buckets ctx.cursor) (requests : List Request) :
    (ctx.after requests).scene = ctx.scene ∧ Resumes buckets (ctx.after requests).cursor := by
  refine cursor_after (fun name' scene' hscene' v size cursor hcursor => ?_) h requests
  obtain ⟨-, rfl⟩ := Prod.mk.inj (Option.some.inj (hscene.symm.trans hscene'))
  obtain ⟨sketch, hsketch⟩ := exists_overlay_eq hordered v
  rw [hoverlay]
  exact (hsketch cursor hcursor).2

/-- Frames of a swing ride with the same source are drawn the same, whatever was searched, pushed and
drawn before. -/
theorem render_after_eq {ctx : Context} (hmode : registry.get? settings.hud.mode = some .swingboat)
    (h : create registry settings samples = .ok ctx) {requests requests' : List Request}
    (hsource : (ctx.after requests).view.source = (ctx.after requests').view.source)
    {C : Type} [Canvas C] (c : C) :
    ((ctx.after requests).render c).1 = ((ctx.after requests').render c).1 ∧
      ((ctx.after requests).render c).2.2 = ((ctx.after requests').render c).2.2 := by
  obtain ⟨buckets, name, scene, hbuckets, hscene, hoverlay, hcursor⟩ := scene_of_create hmode h
  have hordered := pairwise_buckets hbuckets
  have hresumes := resumes_after hordered hscene hoverlay (hcursor ▸ resumes_start buckets)
  obtain ⟨hs, hcur⟩ := hresumes requests
  obtain ⟨hs', hcur'⟩ := hresumes requests'
  -- The scenes are the same, and from such cursors they draw the same overlay.
  refine render_congr (view_after_eq hsource) (hs.trans hs'.symm)
    (fun name' scene' hscene' size => ?_) c
  obtain ⟨-, rfl⟩ := Prod.mk.inj (Option.some.inj (hscene.symm.trans (hs.symm.trans hscene')))
  obtain ⟨sketch, hsketch⟩ := exists_overlay_eq hordered (ctx.after requests).view
  rw [hoverlay, hoverlay, (hsketch _ hcur).1, (hsketch _ hcur').1]

/-- **A frame of a swing ride forgets earlier frames.** After any two series of requests that end
with the same source, whatever was searched, pushed and drawn on whatever canvas, succeeding or
failing, a frame has the same result and leaves the same on equal canvases; on recording canvases,
the same operations. Nor does it matter to the graph for which times its anchor was searched
before: the search ends at the first later bucket after the very first one, or else at the last. -/
theorem frame_forgets_history {ctx : Context}
    (hmode : registry.get? settings.hud.mode = some .swingboat)
    (h : create registry settings samples = .ok ctx) :
    (∀ requests requests' : List Request,
      (ctx.after requests).view.source = (ctx.after requests').view.source →
      ∀ {C : Type} [Canvas C] (c : C),
        ((ctx.after requests).render c).1 = ((ctx.after requests').render c).1 ∧
        ((ctx.after requests).render c).2.2 = ((ctx.after requests').render c).2.2) ∧
    ∃ buckets, Swingboat.buckets samples = .ok buckets ∧ ∀ (times : List Micros) (now : Micros),
      (buckets = [] → LoadGraph.anchor? buckets (searched buckets {} times) now = none) ∧
      (buckets ≠ [] →
        ∃ place, LoadGraph.anchor? buckets (searched buckets {} times) now = some place ∧
          IsAnchor buckets now place) := by
  obtain ⟨buckets, -, -, hbuckets, -⟩ := scene_of_create hmode h
  have hordered := pairwise_buckets hbuckets
  refine ⟨fun requests requests' hsource C _ c => render_after_eq hmode h hsource c,
    buckets, hbuckets, fun times now => ⟨?_, fun hne => ?_⟩⟩
  · rintro rfl
    exact anchor?_nil _ now
  · exact exists_isAnchor hordered hne ((resumes_start buckets).searched hordered times) now

/-- Three samples, which make three buckets. -/
def shortRide : List (Sample Float) := [reading 0, reading 50000, reading 110000]

/-- Searches on and back and past the end, a sample from outside, and frames of which one fails. -/
def restless : List Request :=
  [.seek 100000, .render ({ width := 64, height := 48 } : Recording), .push (reading 7),
    .render ({ width := 64, height := 48, failing := some .stroke } : Recording), .seek 110000]

/-- After all of that a frame is drawn as if nothing had been before. -/
theorem frame_after_restless :
    ∃ ctx, Registry.usual.get? .swingboat = some .swingboat ∧
      create .usual { hud.mode := .swingboat } shortRide = .ok ctx ∧
      (ctx.after (restless ++ [.seek 20000])).view.source = .recorded 1 20000 ∧
      (ctx.after [.seek 20000]).view.source = .recorded 1 20000 ∧
      ∀ c : Recording, ((ctx.after (restless ++ [.seek 20000])).render c).2.2.ops
        = ((ctx.after [.seek 20000]).render c).2.2.ops := by
  have hmode : Registry.usual.get? .swingboat = some .swingboat := rfl
  have hfound : Timeline.lookup shortRide 0 20000 = .ok 1 := rfl
  have hcreate : ∃ ctx, create .usual { hud.mode := .swingboat } shortRide = .ok ctx := ⟨_, rfl⟩
  obtain ⟨ctx, hctx⟩ := hcreate
  have hlong := source_after_seek hctx restless hfound
  have hshort := source_after_seek hctx [] hfound
  refine ⟨ctx, hmode, hctx, hlong, hshort, fun c => congrArg Recording.ops ?_⟩
  exact ((frame_forgets_history hmode hctx).1 _ _ (hlong.trans hshort.symm) c).2

end Swingboat

end RideHud
