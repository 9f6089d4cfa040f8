import RideHud.Proofs.Settings.Check
import RideHud.Proofs.Settings.Written
import RideHud.Proofs.Text.WrittenToml
import RideHud.Settings.Write

/-!
# Settings written in TOML

The tables that are written are read back (`gives_tables`), and they are those of the settings, so
the settings are read as they were written (`ofText?_toToml`).
-/

namespace RideHud.Settings

open Binary64 Toml

/-! ## Tables -/

/-- A table with plain values. -/
structure Table where
  /-- The keys in its header. -/
  path : List String
  /-- The keys of its values, with the texts and the values. -/
  entries : List (String × String × Document)

namespace Table

/-- The text of a table. -/
def text (t : Table) : String :=
  tomlTable (".".intercalate t.path) (t.entries.map fun e => (e.1, e.2.1))

/-- The table opened and filled. -/
def build (t : Table) (es : Entries) : Option Entries := do
  let es ← openTable t.path es
  t.entries.foldlM (fun es e => (change false (assign [e.1] e.2.2) t.path .opened es).map (·.2)) es

/-- A table starts with its header. -/
theorem toList_text (t : Table) : t.text.toList
    = '[' :: ((".".intercalate t.path).toList ++ ']' :: '\n' ::
      (String.join (t.entries.map fun e => s!"{e.1} = {e.2.1}\n")).toList) := by
  unfold text tomlTable
  rw [List.map_map]
  show (toString "[" ++ toString (".".intercalate t.path) ++ toString "]\n" ++ _).toList = _
  simp only [String.toList_append, List.append_assoc]
  rfl

/-- The keys are plain, and the texts show the values. -/
structure IsPlain (t : Table) : Prop where
  path : ∀ k ∈ t.path, isKey k
  path_ne_nil : t.path ≠ []
  entries : ∀ e ∈ t.entries, isKey e.1 ∧ Shows e.2.1 e.2.2

end Table

section

variable {path : List String} {es es' final : Entries} {cs : List Char}

/-- The lines of a table assign its values. -/
theorem gives_entries {entries : List (String × String × Document)}
    (hentries : ∀ e ∈ entries, isKey e.1 ∧ Shows e.2.1 e.2.2)
    (hbuild : entries.foldlM (fun es e =>
      (change false (assign [e.1] e.2.2) path .opened es).map (·.2)) es = some es')
    (h : Gives path es' cs final) :
    Gives path es ((String.join (entries.map fun e => s!"{e.1} = {e.2.1}\n")).toList ++ cs)
      final := by
  induction entries generalizing es with
  | nil =>
      obtain rfl := Option.some.inj hbuild
      exact h
  | cons e entries ih =>
      rw [List.foldlM_cons] at hbuild
      obtain ⟨es₁, hfirst, hrest⟩ := Option.bind_eq_some_iff.mp hbuild
      obtain ⟨⟨o, es₂⟩, hassign, rfl⟩ := Option.map_eq_some_iff.mp hfirst
      obtain ⟨hkey, hshows⟩ := hentries e List.mem_cons_self
      have hgives := (ih (fun e he => hentries e (List.mem_cons_of_mem _ he)) hrest).key
        hkey hshows hassign
      have hline : s!"{e.1} = {e.2.1}\n".toList
          = e.1.toList ++ ' ' :: '=' :: ' ' :: (e.2.1.toList ++ ['\n']) := by
        show (toString e.1 ++ toString " = " ++ toString e.2.1 ++ toString "\n").toList = _
        simp only [String.toList_append, List.append_assoc]
        rfl
      rw [List.map_cons, String.join_cons, String.toList_append, hline]
      simpa only [List.append_assoc, List.cons_append, List.nil_append] using hgives

theorem gives_table {t : Table} (ht : t.IsPlain) {table : List String}
    (hbuild : t.build es = some es') (h : Gives t.path es' cs final) :
    Gives table es (t.text.toList ++ cs) final := by
  obtain ⟨es₁, hopen, hentries⟩ := Option.bind_eq_some_iff.mp hbuild
  have hgives : Gives table es _ final :=
    (gives_entries ht.entries hentries h).header ht.path ht.path_ne_nil hopen
  rw [t.toList_text]
  simpa only [List.append_assoc, List.cons_append] using hgives

/-- **Tables.** Tables with an empty line between them are read back. -/
theorem gives_tables {ts : List Table} (hts : ∀ t ∈ ts, t.IsPlain) {table : List String}
    (hbuild : ts.foldlM (fun es t => t.build es) es = some final) :
    Gives table es ("\n".intercalate (ts.map Table.text)).toList final := by
  induction ts generalizing table es with
  | nil =>
      obtain rfl := Option.some.inj hbuild
      exact gives_nil
  | cons t ts ih =>
      rw [List.foldlM_cons] at hbuild
      obtain ⟨es₁, hfirst, hrest⟩ := Option.bind_eq_some_iff.mp hbuild
      have ht := hts t List.mem_cons_self
      have hgives : Gives t.path es₁ _ final :=
        ih (fun t ht => hts t (List.mem_cons_of_mem _ ht)) hrest
      cases ts with
      | nil =>
          rw [List.map_singleton, String.intercalate_singleton, ← List.append_nil t.text.toList]
          exact gives_table ht hfirst hgives
      | cons t' ts =>
          rw [List.map_cons, List.map_cons, String.intercalate_cons_cons, String.toList_append,
            String.toList_append, List.append_assoc]
          exact gives_table ht hfirst hgives.blank

/-- Tables are read back as a document. -/
theorem ofText?_tables {ts : List Table} (hts : ∀ t ∈ ts, t.IsPlain)
    (hbuild : ts.foldlM (fun es t => t.build es) [] = some final) :
    Toml.ofText? ("\n".intercalate (ts.map Table.text))
      = some (.table (entriesToDocuments final)) := by
  have hgives : Gives [] [] _ final := gives_tables hts hbuild
  have hmark (cs : List Char) : ("\n".intercalate (ts.map Table.text)).toList ≠ '\ufeff' :: cs := by
    rcases ts with _ | ⟨t, _ | ⟨t', ts⟩⟩
    · exact nofun
    · rw [List.map_singleton, String.intercalate_singleton, t.toList_text]
      exact nofun
    · rw [List.map_cons, List.map_cons, String.intercalate_cons_cons, String.toList_append,
        String.toList_append, t.toList_text]
      exact nofun
  unfold Toml.ofText?
  simp only [Option.bind_eq_bind]
  rw [hgives _ (Nat.lt_succ_self _)]
  rfl

end

/-! ## Tables under construction -/

section

variable {es inner : Entries} {key : String} {item : Item}

theorem ne_of_lookup_cons {k : String} (h : ((k, item) :: es).lookup key = none) :
    k ≠ key ∧ es.lookup key = none := by
  rw [List.lookup_cons] at h
  split at h
  · cases h
  · next hne => exact ⟨fun heq => by simp [heq] at hne, h⟩

/-- A new key is put at the end. -/
theorem put_new (h : es.lookup key = none) : put key item es = es ++ [(key, item)] := by
  induction es with
  | nil => rfl
  | cons e es ih =>
      obtain ⟨hne, hrest⟩ := ne_of_lookup_cons h
      rw [put, if_neg hne, ih hrest, List.cons_append]

/-- The item at the end is replaced. -/
theorem put_last {old : Item} (h : es.lookup key = none) :
    put key item (es ++ [(key, old)]) = es ++ [(key, item)] := by
  induction es with
  | nil => exact if_pos rfl
  | cons e es ih =>
      obtain ⟨hne, hrest⟩ := ne_of_lookup_cons h
      rw [List.cons_append, put, if_neg hne, ih hrest, List.cons_append]

theorem lookup_last (h : es.lookup key = none) : (es ++ [(key, item)]).lookup key = some item := by
  rw [List.lookup_append, h, Option.none_or, List.lookup_cons_self]

/-- A table that hangs below the last entries of others. -/
def hang : List (Entries × String) → Entries → Entries
  | [], inner => inner
  | (es, key) :: above, inner => es ++ [(key, .table .opened (hang above inner))]

theorem hang_concat (above : List (Entries × String)) (inner : Entries) :
    hang (above ++ [(es, key)]) inner = hang above (es ++ [(key, .table .opened inner)]) := by
  induction above with
  | nil => rfl
  | cons e above ih => rw [List.cons_append, hang, hang, ih]

/-- The keys of the last entries are not among those before. -/
def Fresh (above : List (Entries × String)) : Prop := ∀ e ∈ above, e.1.lookup e.2 = none

/-- What hangs below can be changed. -/
theorem change_hang {above : List (Entries × String)} (habove : Fresh above)
    {f : Opening → Entries → Option (Opening × Entries)} (inner' : Entries)
    (hf : f .opened inner = some (.opened, inner')) :
    change false f (above.map (·.2)) .opened (hang above inner)
      = some (.opened, hang above inner') := by
  induction above with
  | nil => exact hf
  | cons e above ih =>
      obtain ⟨es, key⟩ := e
      have hfresh := habove _ List.mem_cons_self
      have hrest := ih fun e he => habove e (List.mem_cons_of_mem _ he)
      rw [List.map_cons, hang, hang, change, lookup_last hfresh]
      simp only [Bool.false_and, Bool.false_eq_true, if_false, hrest, Option.bind_eq_bind,
        Option.bind_some, put_last hfresh]
      rfl

/-- A new table is opened below the last entries. -/
theorem openTable_hang {above : List (Entries × String)} (habove : Fresh above)
    (hnew : es.lookup key = none) :
    openTable (above.map (·.2) ++ [key]) (hang above es)
      = some (hang (above ++ [(es, key)]) []) := by
  unfold openTable
  simp only [List.dropLast_concat, List.getLastD_concat]
  rw [change_hang habove (es ++ [(key, .table .opened [])]) (by rw [hnew, put_new hnew]),
    hang_concat]
  rfl

/-- A new key is assigned below the last entries. -/
theorem assign_hang {above : List (Entries × String)} (habove : Fresh above)
    (hnew : es.lookup key = none) (v : Document) :
    (change false (assign [key] v) (above.map (·.2)) .opened (hang above es)).map (·.2)
      = some (hang above (es ++ [(key, .value v)])) := by
  rw [change_hang habove (es ++ [(key, .value v)])]
  · rfl
  · show (if (es.lookup key).isSome then none else some (Opening.opened, put key (.value v) es)) = _
    rw [hnew, put_new hnew]
    rfl

/-- New keys are assigned one after the other. -/
theorem foldlM_assign_hang {above : List (Entries × String)} (habove : Fresh above)
    {entries : List (String × String × Document)} (hkeys : (entries.map (·.1)).Nodup)
    (hnew : ∀ e ∈ entries, es.lookup e.1 = none) :
    entries.foldlM (fun es e =>
        (change false (assign [e.1] e.2.2) (above.map (·.2)) .opened es).map (·.2)) (hang above es)
      = some (hang above (es ++ entries.map fun e => (e.1, .value e.2.2))) := by
  induction entries generalizing es with
  | nil => rw [List.map_nil, List.append_nil]; rfl
  | cons e entries ih =>
      rw [List.map_cons, List.nodup_cons] at hkeys
      rw [List.foldlM_cons, assign_hang habove (hnew e List.mem_cons_self)]
      show entries.foldlM _ (hang above (es ++ [(e.1, .value e.2.2)])) = _
      rw [ih hkeys.2, List.append_assoc]
      · rfl
      · intro e' he'
        have hne : e'.1 ≠ e.1 := fun heq => hkeys.1 (heq ▸ List.mem_map_of_mem he')
        rw [List.lookup_append, hnew e' (List.mem_cons_of_mem _ he'), Option.none_or,
          List.lookup_cons, beq_eq_false_iff_ne.mpr hne]
        rfl

/-- **New tables.** A new table is added below the last entries. -/
theorem build_hang {above : List (Entries × String)} (habove : Fresh above)
    (hnew : es.lookup key = none) {entries : List (String × String × Document)}
    (hkeys : (entries.map (·.1)).Nodup) :
    Table.build ⟨above.map (·.2) ++ [key], entries⟩ (hang above es)
      = some (hang above
        (es ++ [(key, .table .opened (entries.map fun e => (e.1, .value e.2.2)))])) := by
  have habove' : Fresh (above ++ [(es, key)]) := by
    intro e he
    rcases List.mem_append.mp he with he | he
    · exact habove e he
    · rw [List.mem_singleton.mp he]
      exact hnew
  have hassign := foldlM_assign_hang habove' hkeys
    (fun _ _ => rfl : ∀ e ∈ entries, List.lookup e.1 ([] : Entries) = none)
  rw [List.map_append, List.nil_append, hang_concat above (entries.map _)] at hassign
  unfold Table.build
  rw [openTable_hang habove hnew]
  exact hassign

variable {ts : List Table} {entries : List (String × String × Document)}

/-- A new table is added to the document. -/
theorem foldlM_new (hnew : es.lookup key = none) (hkeys : (entries.map (·.1)).Nodup) :
    (⟨[key], entries⟩ :: ts : List Table).foldlM (fun es t => Table.build t es) es
      = ts.foldlM (fun es t => Table.build t es)
        (es ++ [(key, .table .opened (entries.map fun e => (e.1, .value e.2.2)))]) := by
  have hbuild : Table.build ⟨[key], entries⟩ es = some _ :=
    build_hang (show Fresh [] from nofun) hnew hkeys
  rw [List.foldlM_cons, hbuild]
  rfl

/-- A new table is added to the last table of the document. -/
theorem foldlM_below (hlast : es.lookup key = none) {key' : String}
    (hnew : inner.lookup key' = none) (hkeys : (entries.map (·.1)).Nodup) :
    (⟨[key, key'], entries⟩ :: ts : List Table).foldlM (fun es t => Table.build t es)
        (es ++ [(key, .table .opened inner)])
      = ts.foldlM (fun es t => Table.build t es) (es ++ [(key, .table .opened (inner ++
        [(key', .table .opened (entries.map fun e => (e.1, .value e.2.2)))]))]) := by
  have habove : Fresh [(es, key)] := by simpa [Fresh] using hlast
  have hbuild : Table.build ⟨[key, key'], entries⟩ (es ++ [(key, .table .opened inner)]) = some _ :=
    build_hang habove hnew hkeys
  rw [List.foldlM_cons, hbuild]
  rfl

end

/-! ## Values -/

/-- A whole number is read as it was written. -/
theorem shows_word (n : UInt64) : Shows (toString n) (.whole n.toNat) := by
  have htext : (toString n).toList = Nat.toDigits 10 n.toNat := by
    show (toString n.toNat).toList = _
    rw [Nat.toString_eq_ofList_toDigits, String.toList_ofList]
  refine shows_of_plainValue? ?_ ?_ ?_
  · rw [htext]
    exact Nat.toDigits_ne_nil
  · intro c hc
    rw [htext] at hc
    exact isWordChar_of_isDigit (Decimal.isDigit_toDigits _ c hc)
  · rw [htext]
    exact plainValue?_toDigits n.toNat_lt

/-- A finite number is read as it was written. -/
theorem shows_finite {x : Float} (hx : x.isFinite) : Shows (tomlNumber x) (.number x) := by
  have htext : tomlNumber x = Decimal.plain ".0" x := if_neg (by rw [isNaN_of_isFinite hx]; decide)
  obtain ⟨negative, before, after, y, hplain, -, hwrites, -⟩ := Decimal.plain_spec hx
  obtain ⟨n, rfl⟩ := hwrites.whole
  rw [htext]
  refine shows_of_plainValue? ?_ ?_ (plainValue?_plain hx)
  · rw [hplain]
    simp
  · intro c hc
    rw [hplain] at hc
    rcases List.mem_append.mp hc with hc | hc
    · cases negative with
      | true => rw [List.mem_singleton.mp hc]; rfl
      | false => cases hc
    · rcases List.mem_append.mp hc with hc | hc
      · exact isWordChar_of_isDigit (Decimal.isDigit_toDigits n c hc)
      · rcases List.mem_cons.mp hc with rfl | hc
        · rfl
        · exact isWordChar_of_isDigit (hwrites.isDigit c hc)

/-- A positive number is read as it was written, also if it is infinite. -/
theorem shows_positive {x : Float} (hx : 0 < x) : Shows (tomlNumber x) (.number x) := by
  by_cases hinf : x.isInf
  · obtain rfl := eq_infinity hx hinf
    have hchars : ∀ c ∈ "inf".toList, isWordChar c := List.all_eq_true.mp rfl
    exact shows_of_plainValue? (List.cons_ne_nil _ _) hchars plainValue?_infinity
  · exact shows_finite (isFinite_of_pos hx (by simpa using hinf))

/-! ## Settings -/

/-- The tables of the settings. -/
def tables (s : Settings) : List Table :=
  let number (key : String) (x : Float) := (key, tomlNumber x, Document.number x)
  let word (key : String) (n : UInt64) := (key, toString n, Document.whole n.toNat)
  let name (key : String) (name : String) := (key, Json.quoted name, Document.text name)
  let q := s.data.mount
  [⟨["video"], [word "startoff" s.video.start, word "endoff" s.video.stop]⟩,
    ⟨["data"], [word "startoff" s.data.start, number "pressure_coeff" s.data.smoothing]⟩,
    ⟨["data", "imu_orientation"], [number "w" q.w, number "x" q.x, number "y" q.y, number "z" q.z]⟩,
    ⟨["hud"], [name "mode" s.hud.mode.name, number "altitude_ground" s.hud.ground]⟩,
    ⟨["booster"], [number "radius" s.booster.radius]⟩,
    ⟨["swingboat"], [name "position" s.swingboat.position.name]⟩,
    ⟨["orientation"], [name "mode" s.orientation.mode.name]⟩,
    ⟨["display"], [number "dpi" s.display.dpi, number "spi" s.display.spi]⟩,
    ⟨["graph"], [word "window_us" s.graph.window, number "max_g" s.graph.maxLoad,
      number "redline_g" s.graph.redline]⟩]

theorem toToml_eq (s : Settings) : s.toToml = "\n".intercalate (s.tables.map Table.text) := by
  rfl

/-- The tables of the settings as they are read. -/
def entries (s : Settings) : Entries :=
  let number (key : String) (x : Float) := (key, Item.value (.number x))
  let word (key : String) (n : UInt64) := (key, Item.value (.whole n.toNat))
  let name (key : String) (name : String) := (key, Item.value (.text name))
  let q := s.data.mount
  [("video", .table .opened [word "startoff" s.video.start, word "endoff" s.video.stop]),
    ("data", .table .opened [word "startoff" s.data.start, number "pressure_coeff" s.data.smoothing,
      ("imu_orientation",
        .table .opened [number "w" q.w, number "x" q.x, number "y" q.y, number "z" q.z])]),
    ("hud", .table .opened [name "mode" s.hud.mode.name, number "altitude_ground" s.hud.ground]),
    ("booster", .table .opened [number "radius" s.booster.radius]),
    ("swingboat", .table .opened [name "position" s.swingboat.position.name]),
    ("orientation", .table .opened [name "mode" s.orientation.mode.name]),
    ("display", .table .opened [number "dpi" s.display.dpi, number "spi" s.display.spi]),
    ("graph", .table .opened [word "window_us" s.graph.window, number "max_g" s.graph.maxLoad,
      number "redline_g" s.graph.redline])]

/-- The tables of the settings are read back. -/
theorem build_tables (s : Settings) :
    s.tables.foldlM (fun es t => Table.build t es) [] = some s.entries := by
  unfold tables
  simp only
  rw [foldlM_new rfl (by simp), foldlM_new rfl (by simp), foldlM_below rfl rfl (by simp),
    foldlM_new rfl (by simp), foldlM_new rfl (by simp), foldlM_new rfl (by simp),
    foldlM_new rfl (by simp), foldlM_new rfl (by simp), foldlM_new rfl (by simp)]
  rfl

theorem entries_toDocument (s : Settings) : Document.table (entriesToDocuments s.entries)
    = document .toml (fun n => .whole n.toNat) .number s :=
  rfl

/-- The texts in the tables of sensible settings show their values. -/
theorem isPlain_tables {s : Settings} (h : s.Sensible) : ∀ t ∈ s.tables, t.IsPlain := by
  have hmode : Shows (Json.quoted s.hud.mode.name) (.text s.hud.mode.name) :=
    shows_text (List.all_eq_true.mp (by cases s.hud.mode <;> rfl))
  have hposition : Shows (Json.quoted s.swingboat.position.name)
      (.text s.swingboat.position.name) :=
    shows_text (List.all_eq_true.mp (by cases s.swingboat.position <;> rfl))
  have horientation : Shows (Json.quoted s.orientation.mode.name)
      (.text s.orientation.mode.name) :=
    shows_text (List.all_eq_true.mp (by cases s.orientation.mode; rfl))
  have hplain {path : List String} {entries : List (String × String × Document)}
      (hpath : (path.all isKey && !path.isEmpty) = true)
      (hentries : ∀ e ∈ entries, isKey e.1 ∧ Shows e.2.1 e.2.2) :
      Table.IsPlain ⟨path, entries⟩ := by
    rw [Bool.and_eq_true, List.all_eq_true, Bool.not_eq_true', List.isEmpty_eq_false_iff] at hpath
    exact ⟨hpath.1, hpath.2, hentries⟩
  unfold tables
  simp only [List.forall_mem_cons]
  refine ⟨hplain rfl ?_, hplain rfl ?_, hplain rfl ?_, hplain rfl ?_, hplain rfl ?_,
    hplain rfl ?_, hplain rfl ?_, hplain rfl ?_, hplain rfl ?_, nofun⟩ <;>
    simp only [List.forall_mem_cons]
  · exact ⟨⟨rfl, shows_word _⟩, ⟨rfl, shows_word _⟩, nofun⟩
  · exact ⟨⟨rfl, shows_word _⟩, ⟨rfl, shows_finite h.smoothing⟩, nofun⟩
  · exact ⟨⟨rfl, shows_finite h.mount_w⟩, ⟨rfl, shows_finite h.mount_x⟩,
      ⟨rfl, shows_finite h.mount_y⟩, ⟨rfl, shows_finite h.mount_z⟩, nofun⟩
  · exact ⟨⟨rfl, hmode⟩, ⟨rfl, shows_finite h.ground⟩, nofun⟩
  · exact ⟨⟨rfl, shows_finite h.radius⟩, nofun⟩
  · exact ⟨⟨rfl, hposition⟩, nofun⟩
  · exact ⟨⟨rfl, horientation⟩, nofun⟩
  · exact ⟨⟨rfl, shows_positive h.dpi_pos⟩, ⟨rfl, shows_positive h.spi_pos⟩, nofun⟩
  · exact ⟨⟨rfl, shows_word _⟩, ⟨rfl, shows_positive h.maxLoad_pos⟩,
      ⟨rfl, shows_positive h.redline_pos⟩, nofun⟩

/-- **TOML.** Sensible settings are read as they were written in TOML. -/
theorem ofText?_toToml {s : Settings} (h : s.Sensible) : ofText? .toml s.toToml = some s := by
  have hdocument : Toml.ofText? s.toToml
      = some (document .toml (fun n => .whole n.toNat) .number s) := by
    rw [toToml_eq, ofText?_tables (isPlain_tables h) (build_tables s), entries_toDocument]
  show (Toml.ofText? s.toToml).bind (ofDocument? .toml) = _
  rw [hdocument, Option.bind_some]
  exact ofDocument?_document word?_toNat fun _ _ => rfl

end RideHud.Settings
