import RideHud.Proofs.Settings.Check
import RideHud.Proofs.Settings.Repair
import RideHud.Proofs.Settings.WrittenToml
import RideHud.Proofs.Text.ReadBack

/-!
# Settings are loaded as they were saved

What is loaded and saved is loaded again as it was (`load_saved`), with two exceptions. A mount that
is so faint that the squares of its components get lost is not of norm one after it was repaired,
and is repaired again. And JSON has no infinity, which is accepted as a density and as a load.
-/

namespace RideHud.Settings

open Document

variable {format : Format} {text : String} {s written : Settings}

/-! ## Numbers in JSON -/

/-- A number is read from JSON as it was written. -/
def ReadsBack (x : Float) : Prop := number? (ofJson (Json.ofFloat x)) = some x

instance : DecidablePred ReadsBack := fun x =>
  inferInstanceAs (Decidable (number? (ofJson (Json.ofFloat x)) = some x))

/-- A whole number of 64 bits is read from JSON as it was written. -/
theorem word?_ofJson (n : UInt64) : word? (ofJson (Json.ofNat n.toNat)) = some n := by
  have htaken : Json.Numeral.takeDigits 0 (Nat.toDigits 10 n.toNat) = (n.toNat, []) := by
    have hvalue := Nat.ofDigitChars_ten_toDigits (n := n.toNat)
    rw [Json.Numeral.takeDigits_of_lt (by rw [hvalue]; exact n.toNat_lt), hvalue]
  have hwhole : ofJson (Json.ofNat n.toNat) = .whole n.toNat := by
    rw [Json.ofNat, ofJson, ofNumeral]
    simp [Json.Numeral.ofNat, Json.Numeral.isWhole, htaken]
  rw [hwhole, word?_toNat]

/-- **Short numbers.** A number that is written with few digits is read from JSON as it was
written. -/
theorem readsBack_of_isShort {x : Float} (hx : x.isFinite) {n : Json.Numeral}
    (hn : Json.ofFloat x = .number n) (hshort : n.IsShort) : ReadsBack x := by
  obtain ⟨n', hn', hwhole, -⟩ := Json.ofFloat_spec hx
  obtain rfl : n = n' := Json.number.inj (hn.symm.trans hn')
  rw [ReadsBack, hn, ofJson, ofNumeral, hwhole, Json.toFloat?_ofFloat hx hn hshort]
  rfl

/-- Sixteen digits may be too many. -/
example : ¬ ReadsBack 94.15934367570351 := by decide +kernel

/-- A positive number that is not finite is not read from JSON. -/
theorem number?_ofJson_of_pos {x : Float} (hpos : 0 < x) (hx : x.isFinite = false) :
    number? (ofJson (Json.ofFloat x)) = none := by
  have hinf : x.isInf := by
    by_contra hinf
    rw [Binary64.isFinite_of_pos hpos (by simpa using hinf)] at hx
    cases hx
  rw [Binary64.eq_infinity hpos hinf]
  decide +kernel

/-- All numbers of bounded settings are finite. -/
theorem isFinite_of_mem_numbers (h : s.Sensible) (hs : s.Bounded) :
    ∀ x ∈ s.numbers, x.isFinite := by
  simp only [numbers, List.forall_mem_cons]
  exact ⟨h.mount_w, h.mount_x, h.mount_y, h.mount_z, h.smoothing, h.ground, h.radius, hs.dpi,
    hs.spi, hs.maxLoad, hs.redline, List.forall_mem_nil _⟩

/-! ## JSON -/

theorem isPlain_toJson (s : Settings) : s.toJson.IsPlain := by
  have hnumber (x : Float) := Json.isPlain_ofFloat x
  have hword (n : ℕ) : (Json.ofNat n).IsPlain := .number (Json.isPlain_ofNat n)
  have htext (t : String) : (Json.ofString t).IsPlain := .text t
  have hobject {entries : List (String × Json)} (h : ∀ v ∈ entries.map Prod.snd, v.IsPlain) :
      (Json.object entries).IsPlain :=
    .object fun e he => h e.2 (List.mem_map_of_mem he)
  unfold toJson
  refine hobject ?_
  simp only [List.map_cons, List.map_nil, List.forall_mem_cons]
  refine ⟨hobject ?_, hobject ?_, hobject ?_, hobject ?_, hobject ?_, hobject ?_, hobject ?_,
    hobject ?_, nofun⟩ <;>
    simp only [List.map_cons, List.map_nil, List.forall_mem_cons]
  · exact ⟨hword _, hword _, nofun⟩
  · refine ⟨hword _, hobject ?_, hnumber _, nofun⟩
    simp only [List.map_cons, List.map_nil, List.forall_mem_cons]
    exact ⟨hnumber _, hnumber _, hnumber _, hnumber _, nofun⟩
  · exact ⟨htext _, hnumber _, nofun⟩
  · exact ⟨hnumber _, nofun⟩
  · exact ⟨htext _, nofun⟩
  · exact ⟨htext _, nofun⟩
  · exact ⟨hnumber _, hnumber _, nofun⟩
  · exact ⟨hword _, hnumber _, hnumber _, nofun⟩

theorem document?_toJson (s : Settings) : Format.json.document? s.toJson.pretty
    = some (document .json (fun n => ofJson (Json.ofNat n.toNat))
      (fun x => ofJson (Json.ofFloat x)) s) := by
  rw [Format.document?, Json.ofText?_pretty (isPlain_toJson s)]
  rfl

/-- **JSON.** Settings whose numbers read back are read as they were written in JSON. -/
theorem ofText?_toJson (h : ∀ x ∈ s.numbers, ReadsBack x) :
    ofText? .json s.toJson.pretty = some s := by
  rw [ofText?, document?_toJson, Option.bind_some]
  exact ofDocument?_document word?_ofJson h

/-- Settings that are not bounded cannot be read from JSON. -/
theorem ofText?_toJson_of_not_bounded (h : s.Sensible) (hs : ¬ s.Bounded) :
    ofText? .json s.toJson.pretty = none := by
  rw [ofText?, document?_toJson, Option.bind_some, Option.eq_none_iff_forall_ne_some]
  intro read hread
  refine hs ?_
  have hnumbers := isSome_of_ofDocument? hread
  simp only [List.forall_mem_cons] at hnumbers
  obtain ⟨hdpi, hspi, hmax, hred, -⟩ := hnumbers
  have hfinite {x : Float} (hpos : 0 < x) (hx : (number? (ofJson (Json.ofFloat x))).isSome) :
      x.isFinite := by
    by_contra hinf
    rw [number?_ofJson_of_pos hpos (by simpa using hinf)] at hx
    cases hx
  exact ⟨hfinite h.dpi_pos hdpi, hfinite h.spi_pos hspi, hfinite h.maxLoad_pos hmax,
    hfinite h.redline_pos hred⟩

/-! ## Loading again -/

/-- Sensible settings that need no repair are loaded from any text that they are read from. -/
theorem load_of_ofText? (h : s.Sensible) (hs : s.repaired = s)
    (htext : ofText? format text = some s) : load format text = .ok s :=
  load_eq_ok_iff.mpr ⟨s, htext, hs.symm, h⟩

/-- **Saving and loading.** What is loaded, saved and loaded again is the same, unless the mount
that was written is faint; in JSON, if it is bounded and its numbers read back. -/
theorem load_saved (h : load format text = .ok s) (hwritten : ofText? format text = some written)
    (hmount : isFaint written.data.mount = false) :
    load .toml s.toToml = .ok s ∧
      (s.Bounded → (∀ x ∈ s.numbers, x.isFinite → ReadsBack x) →
        load .json s.toJson.pretty = .ok s) := by
  obtain ⟨written', hwritten', rfl, hsensible⟩ := load_eq_ok_iff.mp h
  obtain rfl : written = written' := Option.some.inj (hwritten.symm.trans hwritten')
  have hrepaired := repaired_repaired hmount
  refine ⟨load_of_ofText? hsensible hrepaired (ofText?_toToml hsensible), fun hbounded hread => ?_⟩
  refine load_of_ofText? hsensible hrepaired (ofText?_toJson fun x hx => hread x hx ?_)
  exact isFinite_of_mem_numbers hsensible hbounded x hx

theorem load_saved_radius :
    ∃ s, load .toml "[booster]\nradius = 9.5\n" = .ok s ∧ s.booster.radius = 9.5 ∧
      load .toml s.toToml = .ok s ∧ load .json s.toJson.pretty = .ok s := by
  have hwritten : ofText? .toml "[booster]\nradius = 9.5\n"
      = some { booster := { radius := 9.5 } } := by decide +kernel
  have hmount : isFaint ({ booster := { radius := 9.5 } } : Settings).data.mount = false := by
    decide +kernel
  have hload : load .toml "[booster]\nradius = 9.5\n" = .ok { booster := { radius := 9.5 } } :=
    load_of_toOption (by decide +kernel)
  obtain ⟨htoml, hjson⟩ := load_saved hload hwritten hmount
  refine ⟨_, hload, rfl, htoml, hjson ?_ (by decide +kernel)⟩
  exact ⟨by decide +kernel, by decide +kernel, by decide +kernel, by decide +kernel⟩

/-- What is loaded but not bounded is not loaded again from JSON. -/
theorem load_toJson_of_not_bounded (h : load format text = .ok s) (hs : ¬ s.Bounded) :
    load .json s.toJson.pretty = .error (.unreadable .json) := by
  obtain ⟨_, -, -, hsensible⟩ := load_eq_ok_iff.mp h
  rw [load, ofText?_toJson_of_not_bounded hsensible hs]

/-- Infinity is a density, but not in JSON. -/
theorem load_toJson_infinite_dpi :
    ∃ s, load .toml "[display]\ndpi = inf\n" = .ok s ∧
      load .json s.toJson.pretty = .error (.unreadable .json) := by
  have hload : load .toml "[display]\ndpi = inf\n" = .ok { display := { dpi := 1.0 / 0.0 } } :=
    load_of_toOption (by decide +kernel)
  refine ⟨_, hload, load_toJson_of_not_bounded hload fun hbounded => ?_⟩
  exact absurd hbounded.dpi (by decide +kernel)

end RideHud.Settings
