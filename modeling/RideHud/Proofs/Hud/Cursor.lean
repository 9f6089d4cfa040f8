import RideHud.Proofs.Draw.Reached
import RideHud.Proofs.Hud.Abort

/-!
# When the search of a scene is made

The overlay of a swing ride searches the anchor of its graph where the graph begins, so how far a
frame comes decides whether the cursor moves. It moves exactly if the content and the load succeed,
whatever becomes of the graph (`Swingboat.cursor_of_frame`).
-/

namespace RideHud

variable {C : Type} [Canvas C]

/-! ## Scenes -/

namespace Context

/-- The operations of a stage, between a save and a restore. -/
def stageOps (sketch : Sketch HudError) : List Op := .save :: sketch.ops ++ [.restore]

/-- A tidy stage ends well exactly if its operations succeed. -/
theorem drawStage_cases {sketch : Sketch HudError} (htidy : sketch.Tidy) (s : Stage) (c : C) :
    (Succeed (stageOps sketch) c ∧
        drawStage s sketch c = (.ok (), Canvas.after (stageOps sketch) c)) ∨
      (¬Succeed (stageOps sketch) c ∧ ∃ e c', drawStage s sketch c = (.error e, c')) := by
  have hops : Sketch.ops [.saved sketch] = stageOps sketch := by
    rw [Sketch.ops_singleton, Step.ops, stageOps]
  have hsaved : Sketch.Tidy [.saved sketch] := .saved htidy .nil
  rw [← hops]
  rcases hsaved.run_cases .canvas c with ⟨hdone, hrun⟩ | ⟨hcut, e, c', hrun⟩
  · refine .inl ⟨hdone, ?_⟩
    rw [drawStage, hrun]
    rfl
  · refine .inr ⟨hcut, .stage s e, c', ?_⟩
    rw [drawStage, hrun]
    rfl

/-- **The cursor moves exactly if the content succeeds and the overlay comes to its mark.** -/
theorem cursor_drawScene_of_tidy (ctx : Context) (scene : Scene)
    (hcontent : ∀ size, (scene.content ctx.view size).Tidy)
    (hoverlay : ∀ size, (scene.overlay ctx.view size ctx.cursor).1.Tidy) (c : C) :
    let content := stageOps (scene.content ctx.view (Canvas.size c))
    let drawn := Canvas.after content c
    let overlay := scene.overlay ctx.view (Canvas.size drawn) ctx.cursor
    let reached := ∃ ops, overlay.1.toMark = some ops ∧ Succeed (content ++ .save :: ops) c
    (reached → (ctx.drawScene scene c).2.1 = overlay.2) ∧
      (¬reached → (ctx.drawScene scene c).2.1 = ctx.cursor) := by
  intro content drawn overlay reached
  have hreached : reached ↔ Succeed content c ∧
      Sketch.reaches .canvas [.saved overlay.1] drawn = true := by
    rw [(Sketch.Tidy.saved (hoverlay _) .nil).reaches_iff, Sketch.toMark_saved_cons,
      Sketch.toMark_nil, Option.map_none, Option.or_none]
    simp only [reached, succeed_append_iff, Option.map_eq_some_iff, exists_exists_and_eq_and]
    exact ⟨fun ⟨ops, hops, hdone, h⟩ => ⟨hdone, ops, hops, h⟩,
      fun ⟨hdone, ops, hops, h⟩ => ⟨ops, hops, hdone, h⟩⟩
  rw [hreached]
  unfold drawScene
  rcases drawStage_cases (hcontent (Canvas.size c)) .content c with
    ⟨hdone, hstage⟩ | ⟨hcut, e, c', hstage⟩
  · rw [hstage]
    dsimp only
    refine ⟨fun h => ?_, fun h => ?_⟩
    · rw [if_pos h.2]
    · rw [if_neg fun hr => h ⟨hdone, hr⟩]
  · rw [hstage]
    exact ⟨fun h => absurd h.1 hcut, fun _ => rfl⟩

end Context

/-! ## The swing ride -/

namespace Swingboat

open Context

variable {v : View} {s : Sample Float}

/-- What is drawn of the overlay in front of the graph: the load, and the way to the graph. -/
def untilGraph (v : View) (s : Sample Float) : List Op :=
  let display := v.settings.display
  let text := loadText s
  let size := display.textPixels 100
  .save :: .translate (display.pixels 10) (display.pixels 10) ::
    outlined text size (display.pixels 2) ++
    [.save, .translate (Glyph.extents text size).1 0, .scale v.textDensity v.textDensity,
      .translate 10 0]

/-- If there is a graph, the load is in front of its mark. -/
theorem toMark_readout (buckets : List (Bucket Float)) (v : View) (anchor : Option ℕ)
    (s : Sample Float) : (readout buckets v anchor s).toMark = anchor.map fun _ => untilGraph v s := by
  unfold readout
  cases anchor <;> simp [Sketch.toMark_saved_cons, untilGraph]

/-- The search for the anchor is made at the mark, if it finds one. -/
theorem toMark_overlay (buckets : List (Bucket Float)) (cursor : Cursor)
    (h : v.current? = some s) :
    (overlay buckets v cursor).1.toMark
        = (anchor? buckets v cursor).map (fun _ => untilGraph v s) ∧
      (overlay buckets v cursor).2 = ((anchor? buckets v cursor).map Prod.snd).getD cursor := by
  unfold overlay
  rw [h]
  dsimp only
  cases anchor? buckets v cursor with
  | none => exact ⟨toMark_readout buckets v none s, rfl⟩
  | some p => exact ⟨toMark_readout buckets v (some p.1) s, rfl⟩

/-- **The anchor is searched exactly if a frame comes to the graph.** Let there be a current sample
after any requests to a swing ride. If the content and the load succeed on a canvas, then the frame
leaves the cursor where the search for the anchor ends, even if the graph fails. If one of them
fails, or if there is nothing to search, then the cursor stays. -/
theorem cursor_of_frame {registry : Registry} {settings : Settings} {samples : List (Sample Float)}
    {ctx : Context} (hmode : registry.get? settings.hud.mode = some .swingboat)
    (h : create registry settings samples = .ok ctx) {requests : List Request}
    (hcurrent : (ctx.after requests).view.current? = some s) (c : C) :
    let now := ctx.after requests
    let clear := (Canvas.perform .clear c).2
    let before := stageOps (content (tilts samples) now.view (Canvas.size clear)) ++
      .save :: untilGraph now.view s
    ∃ buckets, Swingboat.buckets samples = .ok buckets ∧
      (∀ anchor found, anchor? buckets now.view now.cursor = some (anchor, found) →
        Succeed before clear → (now.render c).2.1.cursor = found) ∧
      (anchor? buckets now.view now.cursor = none ∨ ¬Succeed before clear →
        (now.render c).2.1.cursor = now.cursor) := by
  intro now clear before
  have hsamples := samples_after h requests
  obtain ⟨buckets, hbuckets, rfl⟩ := exists_sceneOf hmode h
  have hdrawn := congrArg (fun drawn => drawn.2.1)
    (render_of_scene hcurrent (scene_after _ requests) c)
  have htilt := currentTilt_eq hcurrent
  rw [hsamples] at htilt
  obtain ⟨hmark, hfound⟩ := toMark_overlay buckets now.cursor hcurrent
  obtain ⟨hmoves, hstays⟩ := cursor_drawScene_of_tidy now (sceneOf samples buckets)
    (tidy_content htilt) (fun _ => tidy_overlay buckets hcurrent _) clear
  refine ⟨buckets, hbuckets, fun anchor found hanchor hdone => ?_, fun hnot => ?_⟩
  · refine (hdrawn.trans (hmoves ⟨_, hmark.trans (by rw [hanchor]; rfl), hdone⟩)).trans ?_
    exact hfound.trans (by rw [hanchor]; rfl)
  · refine hdrawn.trans (hstays ?_)
    rintro ⟨ops, hops, hdone⟩
    have hops' := hmark.symm.trans hops
    rcases hnot with hnone | hcut
    · rw [hnone] at hops'
      cases hops'
    · obtain ⟨p, -, rfl⟩ := Option.map_eq_some_iff.mp hops'
      exact hcut hdone

end Swingboat

end RideHud
