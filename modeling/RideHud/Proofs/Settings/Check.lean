import RideHud.Proofs.Binary64.Decimal
import RideHud.Settings.Load

/-!
# What is checked

Settings pass the checks if and only if they are sensible (`problem?_eq_none_iff`), so what is
loaded from a text is what was written there, repaired, if that is sensible (`load_eq_ok_iff`).
-/

namespace RideHud.Settings

variable {s : Settings} {format : Format} {text : String}

/-! ## Sensible settings -/

/-- What the rest of the program relies on, but for the numbers of the display and of the graph
being finite. -/
structure Sensible (s : Settings) : Prop where
  ground : s.hud.ground.isFinite
  mount_w : s.data.mount.w.isFinite
  mount_x : s.data.mount.x.isFinite
  mount_y : s.data.mount.y.isFinite
  mount_z : s.data.mount.z.isFinite
  smoothing : s.data.smoothing.isFinite
  smoothing_nonneg : 0 ≤ s.data.smoothing
  radius : s.booster.radius.isFinite
  radius_nonneg : 0 ≤ s.booster.radius
  dpi_pos : 0 < s.display.dpi
  spi_pos : 0 < s.display.spi
  maxLoad_pos : 0 < s.graph.maxLoad
  redline_pos : 0 < s.graph.redline
  window_pos : 1 ≤ s.graph.window
  video : s.video.stop = 0 ∨ s.video.start ≤ s.video.stop

/-- The numbers of the display and of the graph are finite. -/
structure Bounded (s : Settings) : Prop where
  dpi : s.display.dpi.isFinite
  spi : s.display.spi.isFinite
  maxLoad : s.graph.maxLoad.isFinite
  redline : s.graph.redline.isFinite

/-- All numbers are in their ranges. -/
theorem outOfRange_isEmpty_iff :
    s.outOfRange.isEmpty ↔ ¬ s.booster.radius < 0 ∧ ¬ s.data.smoothing < 0 ∧ 0 < s.display.dpi ∧
      0 < s.display.spi ∧ 0 < s.graph.maxLoad ∧ 0 < s.graph.redline ∧ 1 ≤ s.graph.window := by
  rw [outOfRange, List.isEmpty_iff, List.map_eq_nil_iff, List.filter_eq_nil_iff]
  simp [ranges]

/-- The video does not end before it starts. -/
theorem last?_any_iff :
    (s.video.last?.any fun stop => stop < s.video.start) = false ↔
      s.video.stop = 0 ∨ s.video.start ≤ s.video.stop := by
  unfold Video.last?
  split
  · next hpos =>
      have hne : s.video.stop ≠ 0 := UInt64.pos_iff_ne_zero.mp hpos
      simp [hne]
  · next hzero =>
      have heq : s.video.stop = 0 := by
        by_contra hne
        exact hzero (UInt64.pos_iff_ne_zero.mpr hne)
      simp [heq]

/-- All numbers without a range are finite. -/
theorem find?_finiteFields_eq_none_iff :
    (s.finiteFields.find? fun (_, x) => !x.isFinite) = none ↔
      s.hud.ground.isFinite ∧ s.data.smoothing.isFinite ∧ s.data.mount.w.isFinite ∧
        s.data.mount.x.isFinite ∧ s.data.mount.y.isFinite ∧ s.data.mount.z.isFinite ∧
        s.booster.radius.isFinite := by
  rw [List.find?_eq_none]
  simp [finiteFields]

/-- **The checks.** Nothing is wrong with settings if and only if they are sensible. -/
theorem problem?_eq_none_iff : s.problem? = none ↔ s.Sensible := by
  have hproblem : s.problem? = none ↔ s.outOfRange.isEmpty ∧
      (s.video.last?.any fun stop => stop < s.video.start) = false ∧
        (s.finiteFields.find? fun (_, x) => !x.isFinite) = none := by
    unfold problem?
    cases s.outOfRange.isEmpty <;>
      cases s.video.last?.any fun stop => stop < s.video.start <;>
      simp
  rw [hproblem, outOfRange_isEmpty_iff, last?_any_iff, find?_finiteFields_eq_none_iff]
  constructor
  · rintro ⟨⟨hradius, hsmoothing, hdpi, hspi, hmax, hred, hwindow⟩, hvideo, hground, hsmooth, hw,
      hx, hy, hz, hr⟩
    exact ⟨hground, hw, hx, hy, hz, hsmooth, (Binary64.not_lt_zero_iff hsmooth).mp hsmoothing, hr,
      (Binary64.not_lt_zero_iff hr).mp hradius, hdpi, hspi, hmax, hred, hwindow, hvideo⟩
  · intro h
    exact ⟨⟨(Binary64.not_lt_zero_iff h.radius).mpr h.radius_nonneg,
      (Binary64.not_lt_zero_iff h.smoothing).mpr h.smoothing_nonneg, h.dpi_pos, h.spi_pos,
      h.maxLoad_pos, h.redline_pos, h.window_pos⟩, h.video, h.ground, h.smoothing, h.mount_w,
      h.mount_x, h.mount_y, h.mount_z, h.radius⟩

/-- Settings are loaded if what is written is sensible after it was repaired. -/
theorem load_eq_ok_iff :
    load format text = .ok s ↔
      ∃ written, ofText? format text = some written ∧ s = written.repaired ∧ s.Sensible := by
  unfold load
  cases ofText? format text with
  | none => simp
  | some written =>
      simp only [Option.some.injEq, exists_eq_left']
      split
      · next p hproblem =>
          have hwrong : ¬ written.repaired.Sensible := fun hsensible => by
            rw [problem?_eq_none_iff.mpr hsensible] at hproblem
            cases hproblem
          simp only [reduceCtorEq, false_iff, not_and]
          rintro rfl
          exact hwrong
      · next hproblem =>
          rw [Except.ok.injEq, eq_comm (a := s)]
          exact (and_iff_left_of_imp fun h => h ▸ problem?_eq_none_iff.mp hproblem).symm

theorem load_of_toOption (h : (load format text).toOption = some s) :
    load format text = .ok s := by
  cases hload : load format text with
  | error e =>
      rw [hload] at h
      cases h
  | ok s' =>
      rw [hload] at h
      rw [Option.some.inj h]

end RideHud.Settings
