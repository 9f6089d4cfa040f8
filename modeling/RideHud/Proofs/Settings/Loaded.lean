import RideHud.Proofs.Settings.Check
import RideHud.Proofs.Text.Infinity

/-!
# What is loaded

All loaded settings are sensible, and their numbers are finite unless the text has the word for
infinity in TOML (`load_sensible`). The density of the display and the range of the graph are not
checked for that, and infinity is in their ranges (`load_infinite_dpi`).
-/

namespace RideHud.Settings

open Binary64 Document

variable {format : Format} {text : String} {s : Settings}

/-! ## Reading tame documents -/

/-- A field is a part of its section. -/
theorem part_of_fields? {names : List String} {v w : Document} {f : String → Option Document}
    (h : fields? format names v = some f) {name : String} (hname : f name = some w) :
    Part w v := by
  unfold fields? at h
  split at h
  · split at h
    · cases h
      exact .entry (Toml.mem_of_lookup hname) .whole
    · cases h
  · split at h
    · cases h
    · cases h
      exact .item (List.mem_of_getElem? hname) .whole
  · cases h

/-- A field of a tame section that is no number is tame, and so is what stands for one that is
missing. -/
theorem isInf_of_field {names : List String} {v : Document} {f : String → Option Document}
    (hv : v.Tame) (hfields : fields? format names v = some f) {name : String} {usual x : Float}
    (husual : usual.isInf = false) (h : field number? usual (f name) = some x) :
    x.isInf = false := by
  unfold field at h
  split at h
  · cases h
    exact husual
  · next w hname =>
      have htame := hv w (part_of_fields? hfields hname)
      unfold number? at h
      split at h <;> cases h
      · exact isInf_of_isFinite (isFinite_ofInt htame)
      · exact htame

/-- The usual numbers of the display and of the graph are not infinite. -/
theorem isInf_usual :
    (({} : Display).dpi.isInf = false ∧ ({} : Display).spi.isInf = false) ∧
      ({} : Graph).maxLoad.isInf = false ∧ ({} : Graph).redline.isInf = false := by
  decide +kernel

theorem isInf_of_display? {v : Document} {d : Display} (hv : v.Tame)
    (h : display? format v = some d) : d.dpi.isInf = false ∧ d.spi.isInf = false := by
  simp only [display?, Option.bind_eq_bind, Option.bind_eq_some_iff, Option.pure_def,
    Option.some.injEq] at h
  obtain ⟨f, hfields, dpi, hdpi, spi, hspi, rfl⟩ := h
  exact ⟨isInf_of_field hv hfields isInf_usual.1.1 hdpi,
    isInf_of_field hv hfields isInf_usual.1.2 hspi⟩

theorem isInf_of_graph? {v : Document} {g : Graph} (hv : v.Tame)
    (h : graph? format v = some g) : g.maxLoad.isInf = false ∧ g.redline.isInf = false := by
  simp only [graph?, Option.bind_eq_bind, Option.bind_eq_some_iff, Option.pure_def,
    Option.some.injEq] at h
  obtain ⟨f, hfields, window, -, maxLoad, hmax, redline, hred, rfl⟩ := h
  exact ⟨isInf_of_field hv hfields isInf_usual.2.1 hmax,
    isInf_of_field hv hfields isInf_usual.2.2 hred⟩

/-- The display and the graph of a tame document have no infinite numbers. -/
theorem isInf_of_ofDocument? {v : Document} (hv : v.Tame) (h : ofDocument? format v = some s) :
    (s.display.dpi.isInf = false ∧ s.display.spi.isInf = false) ∧
      s.graph.maxLoad.isInf = false ∧ s.graph.redline.isInf = false := by
  simp only [ofDocument?, Option.bind_eq_bind, Option.bind_eq_some_iff, Option.pure_def,
    Option.some.injEq] at h
  obtain ⟨f, hfields, -, -, -, -, -, -, -, -, -, -, -, -, display, hdisplay, graph, hgraph, rfl⟩ :=
    h
  constructor
  · unfold field at hdisplay
    split at hdisplay
    · cases hdisplay
      exact isInf_usual.1
    · next w hname => exact isInf_of_display? (hv.part (part_of_fields? hfields hname)) hdisplay
  · unfold field at hgraph
    split at hgraph
    · cases hgraph
      exact isInf_usual.2
    · next w hname => exact isInf_of_graph? (hv.part (part_of_fields? hfields hname)) hgraph

/-- A document is tame unless it is written in TOML with the word for infinity. -/
theorem tame_of_document? {d : Document} (hcalm : format = .toml → Toml.Calm text.toList)
    (h : format.document? text = some d) : d.Tame := by
  cases format with
  | toml => exact Toml.tame_of_calm (hcalm rfl) h
  | json =>
      obtain ⟨j, -, rfl⟩ := Option.map_eq_some_iff.mp h
      exact tame_ofJson j

/-! ## Loading -/

/-- **Loaded settings.** What is loaded is sensible, and all its numbers are finite unless it is
loaded from TOML with the word for infinity in it. -/
theorem load_sensible (h : load format text = .ok s) :
    s.Sensible ∧ ((format = .toml → ¬ "inf".toList <:+: text.toList) → s.Bounded) := by
  obtain ⟨written, hwritten, rfl, hsensible⟩ := load_eq_ok_iff.mp h
  refine ⟨hsensible, fun hcalm => ?_⟩
  obtain ⟨d, hdocument, hread⟩ := Option.bind_eq_some_iff.mp hwritten
  obtain ⟨⟨hdpi, hspi⟩, hmax, hred⟩ :=
    isInf_of_ofDocument? (tame_of_document? hcalm hdocument) hread
  exact ⟨isFinite_of_pos hsensible.dpi_pos hdpi, isFinite_of_pos hsensible.spi_pos hspi,
    isFinite_of_pos hsensible.maxLoad_pos hmax, isFinite_of_pos hsensible.redline_pos hred⟩

theorem load_sensible_radius :
    ∃ s, load .toml "[booster]\nradius = 9.5\n" = .ok s ∧ s.booster.radius = 9.5 ∧ s.Sensible ∧
      s.Bounded := by
  have hloaded : (load .toml "[booster]\nradius = 9.5\n").toOption
      = some { booster := { radius := 9.5 } } := by decide +kernel
  cases hload : load .toml "[booster]\nradius = 9.5\n" with
  | error e =>
      rw [hload] at hloaded
      cases hloaded
  | ok s =>
      rw [hload] at hloaded
      obtain ⟨hsensible, hbounded⟩ := load_sensible hload
      refine ⟨s, rfl, ?_, hsensible, hbounded fun _ => by decide +kernel⟩
      rw [Option.some.inj hloaded]

/-- Infinity is a density. -/
theorem load_infinite_dpi :
    ∃ s, load .toml "[display]\ndpi = inf\n" = .ok s ∧ s.display.dpi.isFinite = false := by
  have hloaded : (load .toml "[display]\ndpi = inf\n").toOption
      = some { display := { dpi := 1.0 / 0.0 } } := by decide +kernel
  cases hload : load .toml "[display]\ndpi = inf\n" with
  | error e =>
      rw [hload] at hloaded
      cases hloaded
  | ok s =>
      rw [hload] at hloaded
      refine ⟨s, rfl, ?_⟩
      rw [Option.some.inj hloaded]
      decide +kernel

end RideHud.Settings
