import RideHud.Proofs.Draw.Reuse
import RideHud.Proofs.Hud.Abort

/-!
# Frames on one canvas

The frames of a recording are drawn on one raster canvas, one after the other. A frame clears the
surface, but neither the path that it finds nor the graphics state. Whatever the usual strategies
draw uses up its path and restores what it saved, so each frame is drawn as if it were alone
(`frames_do_not_leak`).
-/

namespace RideHud

/-! ## The swing ride -/

namespace LoadGraph

/-- Of the line of the graph, only the path is left. -/
theorem exists_pen_line {ε : Type} (window : Micros) (maxLoad : Float)
    (buckets : List (Bucket Float)) (anchor : ℕ) (pen : Pen) :
    ∃ idle, Sketch.pen (Sketch.calls (line window maxLoad buckets anchor) : Sketch ε) pen
      = some { pen with idle := idle } := by
  unfold line
  cases points window maxLoad buckets anchor with
  | nil => exact ⟨pen.idle, rfl⟩
  | cons p ps =>
      -- With the first point there is a path, and the others go on with it.
      refine ⟨false, ?_⟩
      show Sketch.pen (Sketch.calls (ps.map fun q => .lineTo q.1 q.2)) { pen with idle := false }
        = _
      induction ps with
      | nil => rfl
      | cons q ps ih => exact ih

/-- The graph uses up its path. -/
theorem exists_pen_sketch (graph : Settings.Graph) (buckets : List (Bucket Float)) (anchor : ℕ)
    (pen : Pen) : ∃ pen', (sketch graph buckets anchor).pen pen = some pen' ∧ pen'.idle := by
  obtain ⟨idle, hline⟩ := exists_pen_line (ε := HudError) graph.window graph.maxLoad buckets anchor
    { idle := true, plain := false }
  -- The stroke uses up the path that the line leaves.
  have hgraph (ops : List Op) (hops : Sketch.pen (Sketch.calls ops : Sketch HudError) pen
      = some { idle := true, plain := false }) :
      Sketch.pen (Sketch.calls (ops ++ line graph.window graph.maxLoad buckets anchor ++
        [.apply .stroke]) : Sketch HudError) pen = some { idle := true, plain := false } := by
    rw [Sketch.calls_append, Sketch.calls_append]
    exact Sketch.pen_append (Sketch.pen_append hops hline) rfl
  exact ⟨_, Sketch.pen_append (Sketch.pen_saved (hgraph _ rfl)) rfl, rfl⟩

end LoadGraph

namespace Swingboat

variable {v : View} {s : Sample Float}

/-- The ride uses up its path. -/
theorem spends_content {tilts : Array Float} {tilt : Float} (h : currentTilt tilts v = .ok tilt)
    (size : Float × Float) : (content tilts v size).Spends where
  tidy := tidy_content h size
  spent := by
    unfold content
    rw [h]
    exact ⟨_, rfl, rfl⟩

theorem spends_readout (buckets : List (Bucket Float)) (v : View) (anchor : Option ℕ)
    (s : Sample Float) : (readout buckets v anchor s).Spends where
  tidy := tidy_readout buckets v anchor s
  spent := by
    unfold readout
    cases anchor with
    | none => exact ⟨_, rfl, rfl⟩
    | some anchor =>
        obtain ⟨pen, hgraph, hidle⟩ := LoadGraph.exists_pen_sketch v.settings.graph buckets anchor
          { idle := true, plain := true }
        exact ⟨_, Sketch.pen_saved (Sketch.pen_append rfl
          (Sketch.pen_saved (Sketch.pen_append rfl hgraph))), hidle⟩

/-- The load uses up its path if there is a sample to show. -/
theorem spends_overlay (buckets : List (Bucket Float)) (h : v.current? = some s) (cursor : Cursor) :
    (overlay buckets v cursor).1.Spends := by
  unfold overlay
  rw [h]
  dsimp only
  cases anchor? buckets v cursor with
  | none => exact spends_readout buckets v none s
  | some p => exact spends_readout buckets v (some p.1) s

/-- So does every part of a frame. -/
theorem Part.spends {sketch : Sketch HudError} (h : Part sketch) : sketch.Spends := by
  cases h with
  | nothing => exact ⟨.nil, _, rfl, rfl⟩
  | ride htilt size => exact spends_content htilt size
  | load buckets hcurrent cursor => exact spends_overlay buckets hcurrent cursor

end Swingboat

namespace Context

open Swingboat

variable {settings : Settings} {samples : List (Sample Float)} {ctx ctx' : Context}

/-! ## One frame -/

/-- Turns of hooks that use up their paths leave nothing but layers. -/
theorem Plays.leaves_layers {hook : Stage → Float × Float → Sketch HudError} {script : List Stage}
    {turns : List Turn} {result : Except HudError Unit} {r : Raster}
    (h : Plays hook script r turns result) (hspends : ∀ s ∈ script, ∀ size, (hook s size).Spends)
    (hidle : r.Idle) :
    ∃ layers, Canvas.after (turns.flatMap Turn.bracketed) r = { r with layers := layers } := by
  induction h with
  | done => exact ⟨_, rfl⟩
  | drawn hturn _ ih =>
      obtain ⟨layers, hfirst⟩ := (hspends _ List.mem_cons_self _).leaves_layers hidle hturn
      rw [Turn.bracketed, hfirst] at ih
      obtain ⟨layers', hrest⟩ := ih (fun s hs => hspends s (List.mem_cons_of_mem _ hs)) hidle
      rw [List.flatMap_cons, Canvas.after_append, Turn.bracketed, hfirst, hrest]
      exact ⟨layers', rfl⟩
  | failed hturn =>
      rw [List.flatMap_singleton]
      exact (hspends _ List.mem_cons_self _).leaves_layers hidle hturn

/-- **A frame of the usual strategies leaves nothing but layers**, whether it fails or not. -/
theorem render_leaves_layers (h : create .usual settings samples = .ok ctx)
    (requests : List Request) {r : Raster} (hidle : r.Idle) :
    ∃ layers, ((ctx.after requests).render r).2.2 = { r with layers := layers } := by
  obtain ⟨turns, hplays, hcanvas⟩ := (ctx.after requests).exists_turns r
  obtain ⟨layers, hleft⟩ := hplays.leaves_layers
    (fun s hs size => (part_of_usual h requests s hs size).spends) hidle
  refine ⟨layers, ?_⟩
  rw [hcanvas, Canvas.after_cons, hleft]
  rfl

/-! ## Frames in a row -/

/-- What the HUD sees after a request depends on nothing but what it saw before. -/
theorem view_serve_congr (hview : ctx.view = ctx'.view) (request : Request) :
    (ctx.serve request).2.view = (ctx'.serve request).2.view := by
  cases request with
  | seek time =>
      show (ctx.seek time).2.view = (ctx'.seek time).2.view
      unfold seek hint
      rw [hview]
      split
      · exact hview
      · split
        · exact hview
        · rw [setSource, setSource, hview]
  | push sample =>
      show (ctx.push sample).view = (ctx'.push sample).view
      rw [push, push, setSource, setSource, hview]
  | render c =>
      show (ctx.render c).2.1.view = (ctx'.render c).2.1.view
      rw [(ctx.render_fixes c).1, (ctx'.render_fixes c).1, hview]

theorem view_after_congr (hview : ctx.view = ctx'.view) (requests : List Request) :
    (ctx.after requests).view = (ctx'.after requests).view := by
  induction requests generalizing ctx ctx' with
  | nil => exact hview
  | cons request requests ih => exact ih (view_serve_congr hview request)

/-- Frames of the usual strategies with the same source are drawn the same. -/
theorem render_after_eq_of_usual (h : create .usual settings samples = .ok ctx)
    {requests requests' : List Request}
    (hsource : (ctx.after requests).view.source = (ctx.after requests').view.source)
    {C : Type} [Canvas C] (c : C) :
    ((ctx.after requests).render c).1 = ((ctx.after requests').render c).1 ∧
      ((ctx.after requests).render c).2.2 = ((ctx.after requests').render c).2.2 := by
  have hscenes := (scene_after ctx requests).trans (scene_after ctx requests').symm
  obtain ⟨scene, hctx, hscene⟩ := exists_eq_of_create h
  cases hmode : settings.hud.mode with
  | swingboat => exact Swingboat.render_after_eq (by rw [hmode]; rfl) h hsource c
  | normal =>
      refine render_congr (view_after_eq hsource) hscenes (fun name scene' hs => ?_) c
      rw [hmode] at hscene
      rw [scene_after, hctx, show scene = none from hscene] at hs
      cases hs
  | booster =>
      refine render_congr (view_after_eq hsource) hscenes (fun name scene' hs size => ?_) c
      rw [hmode] at hscene
      obtain ⟨drawn, hprepare, rfl⟩ := hscene
      cases hprepare
      rw [scene_after, hctx] at hs
      cases hs
      rfl

/-- Frames that are drawn on one canvas, each after some requests: how each ends, and what the
canvas is then. -/
def reel : Context → Raster → List (List Request) → List (Except HudError Unit × Raster)
  | _, _, [] => []
  | ctx, r, requests :: script =>
    let drawn := (ctx.after requests).render r
    (drawn.1, drawn.2.2) :: reel drawn.2.1 drawn.2.2 script

/-- The frames that are still to come are drawn as if they were alone, whatever the canvas has been
painted with and whatever frames the HUD has drawn. -/
theorem reel_eq (h : create .usual settings samples = .ok ctx) {blank : Raster}
    (hidle : blank.Idle) (script : List (List Request)) {past past' : List Request}
    (hview : (ctx.after past').view = (ctx.after past).view) (layers : List Layer) :
    reel (ctx.after past') { blank with layers := layers } script
      = (List.range script.length).map fun k =>
          let alone := (ctx.after (past ++ (script.take (k + 1)).flatten)).render blank
          (alone.1, alone.2.2) := by
  induction script generalizing past past' layers with
  | nil => rfl
  | cons requests script ih =>
      -- The layers that the canvas comes with are cleared.
      have hclear : ((ctx.after past').after requests).render { blank with layers := layers }
          = (ctx.after (past' ++ requests)).render blank := by
        rw [after_append]
        rfl
      have hnext : (ctx.after (past' ++ requests)).view = (ctx.after (past ++ requests)).view := by
        rw [after_append, after_append]
        exact view_after_congr hview requests
      obtain ⟨hresult, hcanvas⟩ := render_after_eq_of_usual h (congrArg View.source hnext) blank
      obtain ⟨layers', hleft⟩ := render_leaves_layers h (past' ++ requests) hidle
      -- The next frame is drawn on what this one leaves, by a HUD that has drawn it.
      have hdrawn : ((ctx.after (past' ++ requests)).render blank).2.1
          = ctx.after (past' ++ requests ++ [.render blank]) := by
        rw [after_append ctx (past' ++ requests)]
        rfl
      have hview' : (ctx.after (past' ++ requests ++ [.render blank])).view
          = (ctx.after (past ++ requests)).view := by
        rw [← hdrawn, (render_fixes _ blank).1, hnext]
      rw [reel, hclear]
      dsimp only
      rw [hdrawn, hleft, ih hview' layers', List.length_cons, List.range_succ_eq_map,
        List.map_cons, List.map_map]
      refine congrArg₂ List.cons ?_ (List.map_congr_left fun k _ => ?_)
      · rw [hresult, ← hleft, hcanvas]
        simp
      · simp

/-- **Frames on one canvas do not leak into each other.** A frame of the usual strategies, after any
requests, finds a canvas without a path and without a current point and leaves it so, and it leaves
the graphics state and the saved states, whether it fails or not: only layers have changed. So of a
series of frames on one canvas, each after some requests, each ends and looks as if it were drawn
alone: on a new canvas, by a HUD that has had all requests so far and has drawn none of the earlier
frames. -/
theorem frames_do_not_leak (h : create .usual settings samples = .ok ctx) :
    (∀ (requests : List Request) (r : Raster), r.Idle →
      ∃ layers, ((ctx.after requests).render r).2.2 = { r with layers := layers }) ∧
    ∀ (width height : ℕ) (blank : Raster), Raster.make width height = .ok blank →
      ∀ script : List (List Request), reel ctx blank script
        = (List.range script.length).map fun k =>
            let alone := (ctx.after (script.take (k + 1)).flatten).render blank
            (alone.1, alone.2.2) := by
  refine ⟨fun requests r hidle => render_leaves_layers h requests hidle,
    fun width height blank hblank script => ?_⟩
  have hfresh : blank = { width := width, height := height } := by
    unfold Raster.make at hblank
    split at hblank
    · cases hblank
    · cases hblank
      rfl
  have hidle : blank.Idle := by
    rw [hfresh]
    exact ⟨rfl, rfl⟩
  have hsame : (ctx.after []).view = (ctx.after []).view := rfl
  exact reel_eq h hidle script hsame blank.layers

/-- A canvas on which others draw: something is painted, and a state is saved. -/
def shared : Raster :=
  { width := 64, height := 48, layers := [⟨{}, none, .solid {}, []⟩], graphics := { lineWidth := 5 }
    stack := [{}] }

/-- A frame leaves the state of a shared canvas. Of three frames on one canvas, the last one leaves
what it would leave on a new canvas. -/
theorem reel_of_shortRide :
    ∃ ctx, create .usual { hud.mode := .swingboat } shortRide = .ok ctx ∧
      (∃ layers, ((ctx.after restless).render shared).2.2 = { shared with layers := layers }) ∧
      ∃ blank, Raster.make 64 48 = .ok blank ∧
        let later : List Request := [.seek 60000, .push (reading 7), .seek 20000]
        ∃ first second third, reel ctx blank [[.seek 60000], [.push (reading 7)], [.seek 20000]]
            = [first, second, third] ∧
          third.2 = ((ctx.after later).render blank).2.2 := by
  have hcreate : ∃ ctx, create .usual { hud.mode := .swingboat } shortRide = .ok ctx := ⟨_, rfl⟩
  obtain ⟨ctx, hctx⟩ := hcreate
  obtain ⟨hframe, hreel⟩ := frames_do_not_leak hctx
  refine ⟨ctx, hctx, hframe restless shared ⟨rfl, rfl⟩, _, rfl, ?_⟩
  exact ⟨_, _, _, hreel 64 48 _ rfl [[.seek 60000], [.push (reading 7)], [.seek 20000]], rfl⟩

end Context

end RideHud
