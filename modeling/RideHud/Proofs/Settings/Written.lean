import Mathlib.Data.List.Basic
import RideHud.Settings.Load

/-!
# Written settings

The document of settings, in which numbers may be shown in any way that reads back. The settings are
read from it as they were written (`ofDocument?_document`).
-/

namespace RideHud.Settings

/-! ## Documents -/

/-- The numbers of the settings that need not be whole. -/
def numbers (s : Settings) : List Float :=
  let q := s.data.mount
  [q.w, q.x, q.y, q.z, s.data.smoothing, s.hud.ground, s.booster.radius, s.display.dpi,
    s.display.spi, s.graph.maxLoad, s.graph.redline]

section

variable (format : Format) (word : UInt64 → Document) (number : Float → Document)

/-- The table of a mount. -/
def mountTable (q : Quat Float) : Document :=
  .table [("w", number q.w), ("x", number q.x), ("y", number q.y), ("z", number q.z)]

/-- The table of the section `data`. In TOML the plain values come before the table of the mount. -/
def dataTable (d : Data) : Document :=
  match format with
  | .toml => .table [("startoff", word d.start), ("pressure_coeff", number d.smoothing),
      ("imu_orientation", mountTable number d.mount)]
  | .json => .table [("startoff", word d.start), ("imu_orientation", mountTable number d.mount),
      ("pressure_coeff", number d.smoothing)]

/-- The document of the settings, with ways to show whole numbers and others. -/
def document (s : Settings) : Document :=
  .table [
    ("video", .table [("startoff", word s.video.start), ("endoff", word s.video.stop)]),
    ("data", dataTable format word number s.data),
    ("hud", .table [("mode", .text s.hud.mode.name), ("altitude_ground", number s.hud.ground)]),
    ("booster", .table [("radius", number s.booster.radius)]),
    ("swingboat", .table [("position", .text s.swingboat.position.name)]),
    ("orientation", .table [("mode", .text s.orientation.mode.name)]),
    ("display", .table [("dpi", number s.display.dpi), ("spi", number s.display.spi)]),
    ("graph", .table [("window_us", word s.graph.window), ("max_g", number s.graph.maxLoad),
      ("redline_g", number s.graph.redline)])]

end

/-! ## Reading -/

/-- A whole number of 64 bits is read as it is. -/
theorem word?_toNat (n : UInt64) : word? (.whole n.toNat) = some n := by
  have hn : (0 : Int) ≤ n.toNat ∧ ((n.toNat : Nat) : Int) < UInt64.size :=
    ⟨Int.natCast_nonneg _, by exact_mod_cast n.toNat_lt⟩
  rw [word?, if_pos hn]
  simp

section

variable {format : Format} {word : UInt64 → Document} {number : Float → Document}

/-- The fields of a table whose keys are written once. -/
theorem fields?_table {names : List String} {entries : List (String × Document)}
    (h : (names.all fun n => (entries.filter (·.1 == n)).length ≤ 1) = true) :
    fields? format names (.table entries) = some fun name => entries.lookup name :=
  if_pos h

theorem field_some {β : Type} (read : Document → Option β) (usual : β) (v : Document) :
    field read usual (some v) = read v := rfl

theorem lookup_cons (name key : String) (v : Document) (entries : List (String × Document)) :
    ((key, v) :: entries).lookup name = if name = key then some v else entries.lookup name := by
  rw [List.lookup_cons]
  by_cases h : name = key
  · simp [h]
  · simp [h, beq_eq_false_iff_ne.mpr h]

theorem mount?_mountTable {q : Quat Float}
    (hnumber : ∀ x ∈ q.toList, number? (number x) = some x) :
    mount? format (mountTable number q) = some q := by
  simp only [Quat.toList, List.forall_mem_cons] at hnumber
  obtain ⟨hw, hx, hy, hz, -⟩ := hnumber
  rw [mountTable, mount?, fields?_table rfl]
  simp [lookup_cons, field_some, hw, hx, hy, hz]

theorem data?_dataTable {d : Data} (hword : ∀ n, word? (word n) = some n)
    (hmount : ∀ x ∈ d.mount.toList, number? (number x) = some x)
    (hsmoothing : number? (number d.smoothing) = some d.smoothing) :
    data? format (dataTable format word number d) = some d := by
  have hmount : mount? format (mountTable number d.mount) = some d.mount :=
    mount?_mountTable hmount
  unfold dataTable
  split
  · rw [data?, fields?_table rfl]
    simp [lookup_cons, field_some, hword, hmount, hsmoothing]
  · rw [data?, fields?_table rfl]
    simp [lookup_cons, field_some, hword, hmount, hsmoothing]

/-- **Documents.** Settings are read from their document if its numbers read back. -/
theorem ofDocument?_document {s : Settings} (hword : ∀ n, word? (word n) = some n)
    (hnumber : ∀ x ∈ s.numbers, number? (number x) = some x) :
    ofDocument? format (document format word number s) = some s := by
  simp only [numbers, List.forall_mem_cons] at hnumber
  obtain ⟨hw, hx, hy, hz, hsmoothing, hground, hradius, hdpi, hspi, hmax, hred, -⟩ := hnumber
  have hvideo : video? format (.table [("startoff", word s.video.start),
      ("endoff", word s.video.stop)]) = some s.video := by
    rw [video?, fields?_table rfl]
    simp [lookup_cons, field_some, hword]
  have hdata : data? format (dataTable format word number s.data) = some s.data :=
    data?_dataTable hword (by simp [Quat.toList, hw, hx, hy, hz]) hsmoothing
  have hhud : hud? format (.table [("mode", .text s.hud.mode.name),
      ("altitude_ground", number s.hud.ground)]) = some s.hud := by
    have hmode : choice? format modes (.text s.hud.mode.name) = some s.hud.mode := by
      cases s.hud.mode <;> rfl
    rw [hud?, fields?_table rfl]
    simp [lookup_cons, field_some, hmode, hground]
  have hbooster : booster? format (.table [("radius", number s.booster.radius)])
      = some s.booster := by
    rw [booster?, fields?_table rfl]
    simp [lookup_cons, field_some, hradius]
  have hswingboat : swingboat? format (.table [("position", .text s.swingboat.position.name)])
      = some s.swingboat := by
    have hposition : choice? format positions (.text s.swingboat.position.name)
        = some s.swingboat.position := by
      cases s.swingboat.position <;> rfl
    rw [swingboat?, fields?_table rfl]
    simp [lookup_cons, field_some, hposition]
  have horientation : orientation? format (.table [("mode", .text s.orientation.mode.name)])
      = some s.orientation := by
    obtain ⟨⟨⟩⟩ := s.orientation
    rfl
  have hdisplay : display? format (.table [("dpi", number s.display.dpi),
      ("spi", number s.display.spi)]) = some s.display := by
    rw [display?, fields?_table rfl]
    simp [lookup_cons, field_some, hdpi, hspi]
  have hgraph : graph? format (.table [("window_us", word s.graph.window),
      ("max_g", number s.graph.maxLoad), ("redline_g", number s.graph.redline)])
        = some s.graph := by
    rw [graph?, fields?_table rfl]
    simp [lookup_cons, field_some, hword, hmax, hred]
  rw [document, ofDocument?, fields?_table rfl]
  simp [lookup_cons, field_some, hvideo, hdata, hhud, hbooster, hswingboat, horientation, hdisplay,
    hgraph]

/-- Settings are not read from their document if a number of the display or of the graph does not
read back. -/
theorem isSome_of_ofDocument? {s read : Settings}
    (h : ofDocument? format (document format word number s) = some read) :
    ∀ x ∈ [s.display.dpi, s.display.spi, s.graph.maxLoad, s.graph.redline],
      (number? (number x)).isSome := by
  rw [document, ofDocument?, fields?_table rfl] at h
  simp only [Option.bind_eq_bind, Option.bind_some, Option.bind_eq_some_iff, Option.pure_def] at h
  obtain ⟨-, -, -, -, -, -, -, -, -, -, -, -, display, hdisplay, graph, hgraph, -⟩ := h
  replace hdisplay : display? format (.table [("dpi", number s.display.dpi),
      ("spi", number s.display.spi)]) = some display := hdisplay
  replace hgraph : graph? format (.table [("window_us", word s.graph.window),
      ("max_g", number s.graph.maxLoad), ("redline_g", number s.graph.redline)]) = some graph :=
    hgraph
  rw [display?, fields?_table rfl] at hdisplay
  rw [graph?, fields?_table rfl] at hgraph
  simp only [Option.bind_eq_bind, Option.bind_some, Option.bind_eq_some_iff, Option.pure_def]
    at hdisplay hgraph
  obtain ⟨dpi, hdpi, spi, hspi, -⟩ := hdisplay
  obtain ⟨-, -, maxLoad, hmax, redline, hred, -⟩ := hgraph
  replace hdpi : number? (number s.display.dpi) = some dpi := hdpi
  replace hspi : number? (number s.display.spi) = some spi := hspi
  replace hmax : number? (number s.graph.maxLoad) = some maxLoad := hmax
  replace hred : number? (number s.graph.redline) = some redline := hred
  simp [hdpi, hspi, hmax, hred]

end

end RideHud.Settings
