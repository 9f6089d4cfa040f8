import RideHud.Proofs.Hud.Abort

/-!
# What a frame of a swing ride looks up

A frame looks up the current sample and its tilt, the bucket at which the graph ends, and those
before it. Whatever was asked for before, all of them are there, and none of the earlier buckets is
later than the one at the end (`Supplied`), so a frame lacks nothing and only the canvas can make it
fail (`frames_lack_nothing`). The recording need not be in order: its buckets are.
-/

namespace RideHud

/-! ## Frames -/

namespace Swingboat

variable {samples : List (Sample Float)} {buckets : List (Bucket Float)} {v : View}
  {cursor : Cursor}

/-- What a frame looks up is there. -/
structure Supplied (samples : List (Sample Float)) (buckets : List (Bucket Float)) (v : View)
    (cursor : Cursor) : Prop where
  /-- A place of the recording has its sample, and its tilt. -/
  recorded : ∀ place time, v.source = .recorded place time →
    ∃ s, samples[place]? = some s ∧ (tilts samples)[place]? = some s.quat.tilt
  /-- Then there is a graph, unless there are no buckets. -/
  graph : ∀ place time, v.source = .recorded place time → buckets ≠ [] →
    ∃ found, anchor? buckets v cursor = some found
  /-- The anchor of the graph has its bucket, and so has every place before it: one that is not
  later, so that the time between them is what it should be. -/
  bucket : ∀ anchor next, anchor? buckets v cursor = some (anchor, next) →
    ∃ last, buckets[anchor]? = some last ∧ ∀ i ≤ anchor, ∃ b, buckets[i]? = some b ∧
      b.time ≤ last.time ∧ (last.time - b.time).toNat = last.time.toNat - b.time.toNat
  /-- The points of the graph are made of such buckets. -/
  shown : ∀ anchor next, anchor? buckets v cursor = some (anchor, next) → ∀ window now,
    ∀ b ∈ LoadGraph.shown window buckets anchor now,
      ∃ i, 1 ≤ i ∧ i ≤ anchor ∧ buckets[i]? = some b

/-- The anchor of a frame is that of a search. -/
theorem exists_search {anchor : ℕ} {next : Cursor}
    (h : anchor? buckets v cursor = some (anchor, next)) :
    ∃ now, LoadGraph.anchor? buckets cursor now = some anchor := by
  unfold anchor? at h
  simp only [Option.bind_eq_bind, Option.bind_eq_some_iff] at h
  obtain ⟨place, -, sample, -, anchor', hanchor, hfound⟩ := h
  cases hfound
  exact ⟨sample.time, hanchor⟩

/-- What a frame looks up is there if the current sample is, from whatever cursor the search for the
anchor starts. -/
theorem supplied (hordered : buckets.Pairwise fun b c => b.time < c.time) (h : Context.Sound v)
    (cursor : Cursor) : Supplied v.samples buckets v cursor where
  recorded place time hsource := by
    obtain ⟨-, ⟨s, hs, -⟩, -⟩ := h place time hsource
    exact ⟨s, hs, tilts_getElem? hs⟩
  graph place time hsource hne := by
    obtain ⟨-, ⟨s, hs, -⟩, -⟩ := h place time hsource
    obtain ⟨anchor, hanchor⟩ := LoadGraph.exists_anchor hne cursor s.time
    refine ⟨(anchor, ⟨s.time, anchor⟩), ?_⟩
    simp [anchor?, View.place?, hsource, hs, hanchor]
  bucket anchor next hanchor := by
    obtain ⟨now, hsearch⟩ := exists_search hanchor
    have hlast := List.getElem?_eq_getElem (LoadGraph.anchor_lt hsearch)
    refine ⟨_, hlast, fun i hi => ?_⟩
    obtain ⟨b, hb, htime⟩ := LoadGraph.exists_bucket hordered hlast hi
    exact ⟨b, hb, htime, UInt64.toNat_sub_of_le _ _ htime⟩
  shown anchor next _ window now b hb := LoadGraph.mem_shown hb

end Swingboat

namespace Context

open Swingboat

variable {registry : Registry} {settings : Settings} {samples : List (Sample Float)}
  {ctx : Context}

/-- **A frame of a swing ride lacks nothing.** For all settings and any recording, in order or not,
and after any requests: the scene draws with the tilts of the samples and with the buckets, and
whatever it looks up in them and in the recording for the next frame is there. Only the canvas makes
a frame fail, never a missing sample, and on a canvas that does not fail every frame is drawn. -/
theorem frames_lack_nothing (hmode : registry.get? settings.hud.mode = some .swingboat)
    (h : create registry settings samples = .ok ctx) (requests : List Request) :
    let now := ctx.after requests
    ∃ buckets, Swingboat.buckets samples = .ok buckets ∧
      now.scene = some (Strategy.swingboat.name, sceneOf samples buckets) ∧
      Supplied samples buckets now.view now.cursor ∧
      ∀ {C : Type} [Canvas C] (c : C),
        (∀ e, (now.render c).1 = .error e → ∃ s cause, e = .stage s (.canvas cause)) ∧
        (Canvas.Reliable c → (now.render c).1 = .ok ()) := by
  intro now
  have htidy : now.Tidy := tidy_of_swingboat hmode h requests
  have hsound : Sound now.view := (sound_of_create h).after requests
  have hsamples : now.view.samples = samples := samples_after h requests
  obtain ⟨buckets, hbuckets, rfl⟩ := exists_sceneOf hmode h
  have hsupplied := supplied (pairwise_buckets hbuckets) hsound now.cursor
  rw [hsamples] at hsupplied
  refine ⟨buckets, hbuckets, scene_after _ requests, hsupplied, fun c => ?_⟩
  obtain ⟨turns, hplays, -⟩ := now.exists_turns c
  refine ⟨fun e he => ?_, fun hc => ?_⟩
  · rw [he] at hplays
    exact hplays.eq_canvas_of_error htidy
  · -- The stages are drawn on the cleared canvas, which does not fail either.
    obtain ⟨s, hends⟩ := hplays.ends htidy
    exact (hc.after [.clear]).eq_ok hends

/-- A recording that runs back in time first. -/
def swungBack : List (Sample Float) := shortRide.reverse ++ shortRide

/-- The requests run back in time too. The next frame has a graph, and is drawn on a canvas that does
not fail. -/
theorem frame_of_swungBack :
    Registry.usual.get? .swingboat = some .swingboat ∧
      ∃ ctx, create .usual { hud.mode := .swingboat } swungBack = .ok ctx ∧
        let now := ctx.after [.seek 100000, .push (reading 7), .seek 20000]
        now.view.source = .recorded 1 20000 ∧
        (∃ buckets found, Swingboat.buckets swungBack = .ok buckets ∧
          Swingboat.anchor? buckets now.view now.cursor = some found) ∧
        (now.render ({ width := 64, height := 48 } : Recording)).1 = .ok () := by
  have hmode : Registry.usual.get? .swingboat = some .swingboat := rfl
  have hcreate : ∃ ctx, create .usual { hud.mode := .swingboat } swungBack = .ok ctx := ⟨_, rfl⟩
  obtain ⟨ctx, hctx⟩ := hcreate
  have hsource := source_after_seek hctx [.seek 100000, .push (reading 7)]
    (show Timeline.lookup swungBack 0 20000 = .ok 1 from rfl)
  obtain ⟨buckets, hbuckets, -, hsupplied, hframe⟩ :=
    frames_lack_nothing hmode hctx [.seek 100000, .push (reading 7), .seek 20000]
  have hne : buckets ≠ [] := by
    rintro rfl
    have hcount := congrArg (fun b => b.toOption.map List.length) hbuckets
    cases hcount
  obtain ⟨found, hfound⟩ := hsupplied.graph 1 20000 hsource hne
  exact ⟨hmode, ctx, hctx, hsource, ⟨buckets, found, hbuckets, hfound⟩,
    (hframe _).2 (Recording.reliable_of_failing_eq_none rfl)⟩

end Context

end RideHud
