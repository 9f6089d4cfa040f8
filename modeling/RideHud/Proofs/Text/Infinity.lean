import RideHud.Proofs.Text.Tame
import RideHud.Text.Toml

/-!
# Infinite numbers in TOML

TOML has a word for infinity. Readers leave an end of what they were given, and a plain value is
read from characters that stand together, so a document with an infinite number comes from a text
with that word (`tame_of_calm`).
-/

namespace RideHud.Toml

open Binary64 Document

variable {cs rest : List Char}

/-! ## What readers leave -/

theorem skipBlank_suffix (cs : List Char) : skipBlank cs <:+ cs := List.dropWhile_suffix _

theorem newline?_suffix (h : newline? cs = some rest) : rest <:+ cs := by
  unfold newline? at h
  split at h
  · cases h
    exact List.suffix_cons _ _
  · cases h
    exact (List.suffix_cons _ _).trans (List.suffix_cons _ _)
  · cases h

/-- The text after blanks and a comment. -/
theorem afterBlank_suffix (cs : List Char) :
    (if (skipBlank cs).head? == some '#' then afterComment (skipBlank cs) else skipBlank cs)
      <:+ cs := by
  split
  · exact (List.dropWhile_suffix _).trans (skipBlank_suffix cs)
  · exact skipBlank_suffix cs

theorem endOfLine?_suffix (h : endOfLine? cs = some rest) : rest <:+ cs := by
  have hblank := afterBlank_suffix cs
  simp only [endOfLine?] at h
  generalize (if (skipBlank cs).head? == some '#' then afterComment (skipBlank cs)
    else skipBlank cs) = blank at h hblank
  split at h
  · cases h
    exact List.nil_suffix
  · exact (newline?_suffix h).trans hblank

theorem skipLines_suffix (fuel : ℕ) (cs : List Char) : skipLines fuel cs <:+ cs := by
  induction fuel generalizing cs with
  | zero => exact List.suffix_rfl
  | succ fuel ih =>
      simp only [skipLines]
      have hblank := afterBlank_suffix cs
      split
      · next rest hline => exact (ih rest).trans ((newline?_suffix hline).trans hblank)
      · exact hblank

theorem escape?_suffix {c : Char} (h : escape? cs = some (c, rest)) : rest <:+ cs := by
  have hcoded {n : ℕ} {c : Char} {cs rest : List Char}
      (h : escape?.coded n cs = some (c, rest)) : rest <:+ cs := by
    unfold escape?.coded at h
    split at h
    · cases h
    · obtain ⟨c, -, heq⟩ := Option.map_eq_some_iff.mp h
      cases heq
      exact List.drop_suffix _ _
  unfold escape? at h
  split at h <;>
    first
    | (cases h; exact List.suffix_cons _ _)
    | exact (hcoded h).trans (List.suffix_cons _ _)
    | cases h

theorem basic?_suffix {fuel : ℕ} {s : List Char} (h : basic? fuel cs = some (s, rest)) :
    rest <:+ cs := by
  induction fuel generalizing cs s with
  | zero => cases h
  | succ fuel ih =>
      simp only [basic?] at h
      split at h
      · cases h
      · cases h
        exact List.suffix_cons _ _
      · simp only [Option.bind_eq_bind, Option.bind_eq_some_iff, Option.pure_def,
          Option.some.injEq, Prod.mk.injEq] at h
        obtain ⟨⟨c, cs'⟩, hescape, ⟨s', rest'⟩, hrest, -, rfl⟩ := h
        exact ((ih hrest).trans (escape?_suffix hescape)).trans (List.suffix_cons _ _)
      · split at h
        · cases h
        · simp only [Option.bind_eq_bind, Option.bind_eq_some_iff, Option.pure_def,
            Option.some.injEq, Prod.mk.injEq] at h
          obtain ⟨⟨s', rest'⟩, hrest, -, rfl⟩ := h
          exact (ih hrest).trans (List.suffix_cons _ _)

theorem literal?_suffix {s : List Char} (h : literal? cs = some (s, rest)) : rest <:+ cs := by
  simp only [literal?] at h
  split at h
  · next cs' hdrop =>
      cases h
      exact (List.suffix_cons '\'' _).trans (hdrop ▸ List.dropWhile_suffix _)
  · cases h

theorem quotes_suffix (quote : Char) (cs : List Char) : (quotes quote cs).2.2 <:+ cs := by
  simp only [quotes]
  split <;> exact List.drop_suffix _ _

theorem multiline?_suffix {quote : Char} {fuel : ℕ} {s : List Char}
    (h : multiline? quote fuel cs = some (s, rest)) : rest <:+ cs := by
  induction fuel generalizing cs s with
  | zero => cases h
  | succ fuel ih =>
      simp only [multiline?] at h
      split at h
      · cases h
      next c cs =>
      split at h
      · have hquotes := quotes_suffix quote (c :: cs)
        split at h
        · next hq =>
            cases h
            rw [hq] at hquotes
            exact hquotes
        · next hq =>
            obtain ⟨⟨s', rest'⟩, hrest, heq⟩ := Option.map_eq_some_iff.mp h
            cases heq
            rw [hq] at hquotes
            exact (ih hrest).trans hquotes
      · split at h
        · split at h
          · next cs' hline =>
              exact (((ih h).trans (List.dropWhile_suffix _)).trans
                ((newline?_suffix hline).trans (skipBlank_suffix cs))).trans (List.suffix_cons _ _)
          · simp only [Option.bind_eq_bind, Option.bind_eq_some_iff, Option.pure_def,
              Option.some.injEq, Prod.mk.injEq] at h
            obtain ⟨⟨c', cs'⟩, hescape, ⟨s', rest'⟩, hrest, -, rfl⟩ := h
            exact ((ih hrest).trans (escape?_suffix hescape)).trans (List.suffix_cons _ _)
        · split at h
          · next cs' hline =>
              obtain ⟨⟨s', rest'⟩, hrest, heq⟩ := Option.map_eq_some_iff.mp h
              cases heq
              exact (ih hrest).trans (newline?_suffix hline)
          · split at h
            · cases h
            · obtain ⟨⟨s', rest'⟩, hrest, heq⟩ := Option.map_eq_some_iff.mp h
              cases heq
              exact (ih hrest).trans (List.suffix_cons _ _)

theorem dropNewline_suffix (cs : List Char) : dropNewline cs <:+ cs := by
  unfold dropNewline
  cases hline : newline? cs with
  | none => exact List.suffix_rfl
  | some rest => exact newline?_suffix hline

theorem text?_suffix {s : List Char} (h : text? cs = some (s, rest)) : rest <:+ cs := by
  have hcons (c : Char) (cs : List Char) : cs <:+ c :: cs := List.suffix_cons c cs
  unfold text? at h
  split at h
  · exact (multiline?_suffix h).trans ((dropNewline_suffix _).trans
      ((hcons _ _).trans ((hcons _ _).trans (hcons _ _))))
  · exact (multiline?_suffix h).trans ((dropNewline_suffix _).trans
      ((hcons _ _).trans ((hcons _ _).trans (hcons _ _))))
  · exact (basic?_suffix h).trans (hcons _ _)
  · exact (literal?_suffix h).trans (hcons _ _)
  · cases h

theorem simpleKey?_suffix {key : String} (h : simpleKey? cs = some (key, rest)) :
    rest <:+ cs := by
  unfold simpleKey? at h
  split at h
  · obtain ⟨⟨s, rest'⟩, hrest, heq⟩ := Option.map_eq_some_iff.mp h
    cases heq
    exact (basic?_suffix hrest).trans (List.suffix_cons _ _)
  · obtain ⟨⟨s, rest'⟩, hrest, heq⟩ := Option.map_eq_some_iff.mp h
    cases heq
    exact (literal?_suffix hrest).trans (List.suffix_cons _ _)
  · simp only at h
    split at h
    · cases h
    · cases h
      exact List.dropWhile_suffix _

theorem keys?_suffix {fuel : ℕ} {keys : List String} (h : keys? fuel cs = some (keys, rest)) :
    rest <:+ cs := by
  induction fuel generalizing cs keys with
  | zero => cases h
  | succ fuel ih =>
      simp only [keys?, Option.bind_eq_bind, Option.bind_eq_some_iff] at h
      obtain ⟨⟨key, cs'⟩, hkey, h⟩ := h
      have hskip := (skipBlank_suffix cs').trans
        ((simpleKey?_suffix hkey).trans (skipBlank_suffix cs))
      split at h
      · next cs'' hdot =>
          simp only [Option.bind_eq_some_iff, Option.pure_def, Option.some.injEq,
            Prod.mk.injEq] at h
          obtain ⟨⟨keys', rest'⟩, hrest, -, rfl⟩ := h
          exact (ih hrest).trans ((List.suffix_cons '.' _).trans (hdot ▸ hskip))
      · cases h
        exact hskip

/-- A plain value stands at the front. -/
theorem plain_spec (cs : List Char) : (plain cs).1 <+: cs ∧ (plain cs).2 <:+ cs := by
  have hword := List.takeWhile_prefix (fun c => !isDelimiter c) (l := cs)
  have hrest := List.dropWhile_suffix (fun c => !isDelimiter c) (l := cs)
  have hsplit := List.takeWhile_append_dropWhile (p := fun c => !isDelimiter c) (l := cs)
  simp only [plain]
  split
  · next c more _ hblank =>
      rw [hblank] at hrest hsplit
      split
      · have htime := (List.prefix_append_right_inj (cs.takeWhile fun c => !isDelimiter c)).mpr
          ((List.prefix_cons_inj ' ').mpr
            (List.takeWhile_prefix (fun c => !isDelimiter c) (l := c :: more)))
        rw [hsplit] at htime
        exact ⟨htime, (List.dropWhile_suffix _).trans ((List.suffix_cons ' ' _).trans hrest)⟩
      · exact ⟨hword, hblank ▸ hrest⟩
  · exact ⟨hword, hrest⟩

/-! ## Tables -/

/-- No number in a table under construction is infinite. -/
def TameEntries (es : Entries) : Prop := ∀ k i, (k, i) ∈ es → i.toDocument.Tame

theorem tameEntries_nil : TameEntries [] := fun _ _ hmem => nomatch hmem

/-- The values of finished entries are those of their items. -/
theorem entriesToDocuments_eq_map (es : Entries) :
    entriesToDocuments es = es.map fun e => (e.1, e.2.toDocument) := by
  induction es with
  | nil => rfl
  | cons e es ih => exact congrArg _ ih

theorem tame_entries_iff (es : Entries) :
    (Document.table (entriesToDocuments es)).Tame ↔ TameEntries es := by
  rw [entriesToDocuments_eq_map]
  constructor
  · intro h k i hmem
    exact h.part (.entry (List.mem_map_of_mem hmem) .whole)
  · intro h
    refine tame_table fun k v hmem => ?_
    obtain ⟨⟨k', i⟩, hmem', heq⟩ := List.mem_map.mp hmem
    obtain ⟨rfl, rfl⟩ := Prod.mk.inj heq
    exact h k' i hmem'

theorem TameEntries.put {es : Entries} (h : TameEntries es) (key : String) {item : Item}
    (hitem : item.toDocument.Tame) : TameEntries (put key item es) := by
  induction es with
  | nil =>
      intro k i hmem
      obtain ⟨rfl, rfl⟩ := Prod.mk.inj (List.mem_singleton.mp hmem)
      exact hitem
  | cons e es ih =>
      obtain ⟨k', i'⟩ := e
      have htail : TameEntries es := fun k i hmem => h k i (List.mem_cons_of_mem _ hmem)
      intro k i hmem
      unfold Toml.put at hmem
      split at hmem
      · rcases List.mem_cons.mp hmem with heq | hmem
        · obtain ⟨rfl, rfl⟩ := Prod.mk.inj heq
          exact hitem
        · exact htail k i hmem
      · rcases List.mem_cons.mp hmem with heq | hmem
        · obtain ⟨rfl, rfl⟩ := Prod.mk.inj heq
          exact h _ _ List.mem_cons_self
        · exact ih htail k i hmem

theorem mem_of_lookup {β : Type} {es : List (String × β)} {key : String} {b : β}
    (h : es.lookup key = some b) : (key, b) ∈ es := by
  induction es with
  | nil => cases h
  | cons e es ih =>
      obtain ⟨k, b'⟩ := e
      rw [List.lookup_cons] at h
      split at h
      · next heq =>
          cases h
          rw [beq_iff_eq.mp heq]
          exact List.mem_cons_self
      · exact List.mem_cons_of_mem _ (ih h)

/-- The values of finished tables are those of their entries. -/
theorem tablesToDocuments_eq_map (ts : List Entries) :
    tablesToDocuments ts = ts.map fun es => .table (entriesToDocuments es) := by
  induction ts with
  | nil => rfl
  | cons es ts ih => exact congrArg _ ih

theorem tame_tables_iff (last : Entries) (before : List Entries) :
    (Item.tables last before).toDocument.Tame ↔ ∀ es ∈ last :: before, TameEntries es := by
  have hdocument : (Item.tables last before).toDocument
      = .list ((last :: before).map fun es => Document.table (entriesToDocuments es)).reverse := by
    rw [Item.toDocument, tablesToDocuments_eq_map]
    rfl
  rw [hdocument]
  constructor
  · intro h es hmem
    refine (tame_entries_iff es).mp (h.part (.item (List.mem_reverse.mpr ?_) .whole))
    exact List.mem_map_of_mem hmem
  · intro h
    refine tame_list fun v hmem => ?_
    obtain ⟨es, hes, rfl⟩ := List.mem_map.mp (List.mem_reverse.mp hmem)
    exact (tame_entries_iff es).mpr (h es hes)

/-- A change keeps a table tame if it keeps the table tame that it reaches. -/
theorem TameEntries.change {isDotted : Bool}
    {f : Opening → Entries → Option (Opening × Entries)}
    (hf : ∀ o es o' es', f o es = some (o', es') → TameEntries es → TameEntries es')
    {keys : List String} {o o' : Opening} {es es' : Entries}
    (hchange : change isDotted f keys o es = some (o', es')) (h : TameEntries es) :
    TameEntries es' := by
  induction keys generalizing o o' es es' with
  | nil => exact hf _ _ _ _ hchange h
  | cons key keys ih =>
      unfold Toml.change at hchange
      split at hchange
      · simp only [Option.bind_eq_bind, Option.bind_eq_some_iff, Option.pure_def,
          Option.some.injEq, Prod.mk.injEq] at hchange
        obtain ⟨⟨o'', es''⟩, hinner, -, rfl⟩ := hchange
        exact h.put key ((tame_entries_iff es'').mpr (ih hinner tameEntries_nil))
      · cases hchange
      · next inner hlookup =>
          split at hchange
          · cases hchange
          simp only [Option.bind_eq_bind, Option.bind_eq_some_iff, Option.pure_def,
            Option.some.injEq, Prod.mk.injEq] at hchange
          obtain ⟨⟨o'', es''⟩, hinner, -, rfl⟩ := hchange
          have htame := (tame_entries_iff inner).mp (h key _ (mem_of_lookup hlookup))
          exact h.put key ((tame_entries_iff es'').mpr (ih hinner htame))
      · next last before hlookup =>
          simp only [Option.bind_eq_bind, Option.bind_eq_some_iff, Option.pure_def,
            Option.some.injEq, Prod.mk.injEq] at hchange
          obtain ⟨⟨o'', es''⟩, hinner, -, rfl⟩ := hchange
          have htame := (tame_tables_iff last before).mp (h key _ (mem_of_lookup hlookup))
          refine h.put key ((tame_tables_iff es'' before).mpr fun es hmem => ?_)
          rcases List.mem_cons.mp hmem with rfl | hmem
          · exact ih hinner (htame last List.mem_cons_self)
          · exact htame es (List.mem_cons_of_mem _ hmem)

theorem TameEntries.assign {keys : List String} {v : Document} {o o' : Opening}
    {es es' : Entries} (hassign : assign keys v o es = some (o', es')) (h : TameEntries es)
    (hv : v.Tame) : TameEntries es' := by
  refine TameEntries.change (fun o es o' es' heq h => ?_) hassign h
  split at heq
  · cases heq
  split at heq
  · cases heq
  · cases heq
    exact h.put _ hv

theorem TameEntries.openTable {keys : List String} {es es' : Entries}
    (hopen : openTable keys es = some es') (h : TameEntries es) : TameEntries es' := by
  obtain ⟨⟨o, es''⟩, hchange, rfl⟩ := Option.map_eq_some_iff.mp hopen
  refine TameEntries.change (fun o es o' es' heq h => ?_) hchange h
  split at heq
  · cases heq
    exact h.put _ ((tame_entries_iff []).mpr tameEntries_nil)
  · next inner hlookup =>
      cases heq
      have htame : (Item.table .passed inner).toDocument.Tame := h _ _ (mem_of_lookup hlookup)
      exact h.put _ htame
  · cases heq

theorem TameEntries.addTable {keys : List String} {es es' : Entries}
    (hadd : addTable keys es = some es') (h : TameEntries es) : TameEntries es' := by
  obtain ⟨⟨o, es''⟩, hchange, rfl⟩ := Option.map_eq_some_iff.mp hadd
  refine TameEntries.change (fun o es o' es' heq h => ?_) hchange h
  split at heq
  · cases heq
    refine h.put _ ((tame_tables_iff [] []).mpr fun es hmem => ?_)
    rw [List.mem_singleton.mp hmem]
    exact tameEntries_nil
  · next last before hlookup =>
      cases heq
      have htame := (tame_tables_iff last before).mp (h _ _ (mem_of_lookup hlookup))
      refine h.put _ ((tame_tables_iff [] (last :: before)).mpr fun es hmem => ?_)
      rcases List.mem_cons.mp hmem with rfl | hmem
      · exact tameEntries_nil
      · exact htame es hmem
  · cases heq

/-! ## Plain values -/

theorem sign_suffix (cs : List Char) : (sign cs).2.2 <:+ cs := by
  unfold sign
  split
  · exact List.suffix_cons _ _
  · exact List.suffix_cons _ _
  · exact List.suffix_rfl

theorem tame_of_whole? {negative : Bool} {n : ℕ} {v : Document}
    (h : whole? negative n = some v) : v.Tame := by
  unfold whole? at h
  split at h
  · split at h
    · next hle =>
        cases h
        refine tame_whole ?_
        rw [Int.natAbs_neg, Int.natAbs_natCast]
        exact lt_of_le_of_lt hle (by decide)
    · split at h <;> cases h
      exact tame_other
  · split at h
    · next hlt =>
        cases h
        exact tame_whole hlt
    · split at h <;> cases h
      exact tame_other

theorem tame_of_integer? {v : Document} (h : integer? cs = some (some v)) : v.Tame := by
  unfold integer? at h
  simp only at h
  have hbased {hasSign : Bool} {base : ℕ} {isDigit : Char → Bool} {ds : List Char}
      (h : (if hasSign = true then none
        else (digits? isDigit ds).map fun ds => whole? false (value base ds)) = some (some v)) :
      v.Tame := by
    split at h
    · cases h
    · obtain ⟨ds', -, hwhole⟩ := Option.map_eq_some_iff.mp h
      exact tame_of_whole? hwhole
  split at h
  · exact hbased h
  · exact hbased h
  · exact hbased h
  · obtain ⟨ds', -, hwhole⟩ := Option.map_eq_some_iff.mp h
    exact tame_of_whole? hwhole

theorem isInf_of_scaled? {ds : List Char} {e : ℤ} {x : Float} (h : scaled? ds e = some x) :
    x.isInf = false := by
  simp only [scaled?] at h
  split at h
  · cases h
    exact isInf_of_isFinite isFinite_zero
  · split at h
    · cases h
    · split at h
      · cases h
      · next hinf =>
          cases h
          simpa using hinf

theorem isInf_of_unsigned? {x : Float} (h : unsigned? cs = some (some x)) : x.isInf = false := by
  have hexponent {e? : Option ℤ} {ds : List Char} {places : ℕ}
      (h : (e?.bind fun e => some (scaled? ds (e - places))) = some (some x)) :
      x.isInf = false := by
    obtain ⟨e, -, hscaled⟩ := Option.bind_eq_some_iff.mp h
    exact isInf_of_scaled? (Option.some.inj hscaled)
  simp only [unsigned?, Option.bind_eq_bind, Option.pure_def] at h
  obtain ⟨whole, -, h⟩ := Option.bind_eq_some_iff.mp h
  split at h <;> obtain ⟨fraction, -, h⟩ := Option.bind_eq_some_iff.mp h
  all_goals
    split at h
    · exact hexponent h
    · split at h <;> exact hexponent h

/-- The word for infinity does not stand in a text. -/
def Calm (cs : List Char) : Prop := ¬ "inf".toList <:+: cs

theorem Calm.suffix (h : Calm cs) (hrest : rest <:+ cs) : Calm rest :=
  fun hinf => h (hinf.trans hrest.isInfix)

theorem tame_of_float? {v : Document} (hcalm : Calm cs) (h : float? cs = some (some v)) :
    v.Tame := by
  have hsign := sign_suffix cs
  have hsigned {negative : Bool} {x : Float} (hx : x.isInf = false) :
      (Document.number (if negative then -x else x)).Tame := by
    refine tame_number ?_
    split
    · rw [isInf_neg, hx]
    · exact hx
  unfold float? at h
  split at h
  next negative hasSign body hbody =>
  rw [hbody] at hsign
  simp only at h
  split at h
  · next hinf => exact absurd (beq_iff_eq.mp hinf ▸ hsign.isInfix) hcalm
  · split at h
    · cases h
      exact hsigned (by decide +kernel)
    · obtain ⟨x?, hunsigned, hx⟩ := Option.map_eq_some_iff.mp h
      obtain ⟨x, rfl, rfl⟩ := Option.map_eq_some_iff.mp hx
      exact hsigned (isInf_of_unsigned? hunsigned)

theorem tame_of_plainValue? {v : Document} (hcalm : Calm cs) (h : plainValue? cs = some v) :
    v.Tame := by
  unfold plainValue? at h
  split at h
  · cases h
    exact tame_bool
  split at h
  · cases h
    exact tame_bool
  split at h
  · next hinteger =>
      rw [h] at hinteger
      exact tame_of_integer? hinteger
  split at h
  · next hfloat =>
      rw [h] at hfloat
      exact tame_of_float? hcalm hfloat
  · split at h
    · cases h
      exact tame_other
    · cases h

/-! ## Values -/

/-- The readers of values keep tame what is read, and leave an end of the text. -/
structure Reads (fuel : ℕ) : Prop where
  value : ∀ depth cs v rest, Calm cs → value? fuel depth cs = some (v, rest) →
    v.Tame ∧ rest <:+ cs
  items : ∀ depth cs vs rest, Calm cs → items? fuel depth cs = some (vs, rest) →
    (∀ v ∈ vs, v.Tame) ∧ rest <:+ cs
  pairs : ∀ depth es cs es' rest, Calm cs → TameEntries es →
    pairs? fuel depth es cs = some (es', rest) → TameEntries es' ∧ rest <:+ cs

theorem reads_zero : Reads 0 where
  value _ _ _ _ _ h := by cases h
  items _ _ _ _ _ h := by cases h
  pairs _ _ _ _ _ _ _ h := by cases h

section

variable {fuel depth : ℕ} {rest : List Char}

theorem Reads.value_succ (ih : Reads fuel) {v : Document} (hcalm : Calm cs)
    (h : value? (fuel + 1) depth cs = some (v, rest)) : v.Tame ∧ rest <:+ cs := by
  unfold value? at h
  split at h
  · next cs =>
      split at h
      · cases h
      simp only [Option.bind_eq_bind, Option.bind_eq_some_iff, Option.pure_def,
        Option.some.injEq, Prod.mk.injEq] at h
      obtain ⟨⟨items, rest'⟩, hitems, rfl, rfl⟩ := h
      have hcons := List.suffix_cons '[' cs
      obtain ⟨htame, hrest⟩ := ih.items _ _ _ _ (hcalm.suffix hcons) hitems
      exact ⟨tame_list htame, hrest.trans hcons⟩
  · next cs =>
      split at h
      · cases h
      simp only [Option.bind_eq_bind, Option.bind_eq_some_iff, Option.pure_def,
        Option.some.injEq, Prod.mk.injEq] at h
      obtain ⟨⟨entries, rest'⟩, hpairs, rfl, rfl⟩ := h
      have hcons := List.suffix_cons '\x7b' cs
      obtain ⟨htame, hrest⟩ :=
        ih.pairs _ _ _ _ _ (hcalm.suffix hcons) tameEntries_nil hpairs
      exact ⟨(tame_entries_iff entries).mpr htame, hrest.trans hcons⟩
  · split at h
    · obtain ⟨⟨s, rest'⟩, htext, heq⟩ := Option.map_eq_some_iff.mp h
      cases heq
      exact ⟨tame_text, text?_suffix htext⟩
    · obtain ⟨hword, hrest⟩ := plain_spec cs
      obtain ⟨v', hvalue, heq⟩ := Option.map_eq_some_iff.mp h
      cases heq
      exact ⟨tame_of_plainValue? (fun hinf => hcalm (hinf.trans hword.isInfix)) hvalue, hrest⟩

theorem Reads.items_succ (ih : Reads fuel) {vs : List Document} (hcalm : Calm cs)
    (h : items? (fuel + 1) depth cs = some (vs, rest)) : (∀ v ∈ vs, v.Tame) ∧ rest <:+ cs := by
  unfold items? at h
  have hskip := skipLines_suffix cs.length cs
  split at h
  · next cs' hclose =>
      cases h
      exact ⟨fun v hmem => (nomatch hmem), (List.suffix_cons ']' _).trans (hclose ▸ hskip)⟩
  · simp only [Option.bind_eq_bind, Option.bind_eq_some_iff] at h
    obtain ⟨⟨v, cs'⟩, hvalue, h⟩ := h
    obtain ⟨htame, hrest⟩ := ih.value _ _ _ _ (hcalm.suffix hskip) hvalue
    have hskip' := ((skipLines_suffix cs'.length cs').trans hrest).trans hskip
    simp only at h
    split at h
    · next cs'' hcomma =>
        simp only [Option.bind_eq_some_iff, Option.pure_def, Option.some.injEq,
          Prod.mk.injEq] at h
        obtain ⟨⟨vs', rest'⟩, hitems, rfl, rfl⟩ := h
        have hcons := (List.suffix_cons ',' _).trans (hcomma ▸ hskip')
        obtain ⟨htame', hrest'⟩ := ih.items _ _ _ _ (hcalm.suffix hcons) hitems
        refine ⟨fun v' hmem => ?_, hrest'.trans hcons⟩
        rcases List.mem_cons.mp hmem with rfl | hmem
        · exact htame
        · exact htame' v' hmem
    · next cs'' hclose =>
        cases h
        refine ⟨fun v' hmem => ?_, (List.suffix_cons ']' _).trans (hclose ▸ hskip')⟩
        rw [List.mem_singleton.mp hmem]
        exact htame
    · cases h

theorem Reads.pairs_succ (ih : Reads fuel) {es es' : Entries} (hcalm : Calm cs)
    (hes : TameEntries es) (h : pairs? (fuel + 1) depth es cs = some (es', rest)) :
    TameEntries es' ∧ rest <:+ cs := by
  unfold pairs? at h
  have hskip := skipLines_suffix cs.length cs
  split at h
  · next cs' hclose =>
      cases h
      exact ⟨hes, (List.suffix_cons '\x7d' _).trans (hclose ▸ hskip)⟩
  · simp only [Option.bind_eq_bind, Option.bind_eq_some_iff] at h
    obtain ⟨⟨keys, cs'⟩, hkeys, h⟩ := h
    have hkeys' := (keys?_suffix hkeys).trans hskip
    simp only at h
    split at h
    · next cs'' =>
        have hvalue' := (skipBlank_suffix cs'').trans ((List.suffix_cons '=' _).trans hkeys')
        simp only [Option.bind_eq_some_iff] at h
        obtain ⟨⟨v, cs₃⟩, hvalue, ⟨o, entries⟩, hassign, h⟩ := h
        obtain ⟨htame, hrest⟩ := ih.value _ _ _ _ (hcalm.suffix hvalue') hvalue
        have hentries := hes.assign hassign htame
        have hskip' := ((skipLines_suffix cs₃.length cs₃).trans hrest).trans hvalue'
        simp only at h
        split at h
        · next cs₄ hcomma =>
            have hcons := (List.suffix_cons ',' _).trans (hcomma ▸ hskip')
            obtain ⟨htame', hrest'⟩ := ih.pairs _ _ _ _ _ (hcalm.suffix hcons) hentries h
            exact ⟨htame', hrest'.trans hcons⟩
        · next cs₄ hclose =>
            cases h
            exact ⟨hentries, (List.suffix_cons '\x7d' _).trans (hclose ▸ hskip')⟩
        · cases h
    · cases h

end

theorem reads (fuel : ℕ) : Reads fuel := by
  induction fuel with
  | zero => exact reads_zero
  | succ fuel ih =>
      exact ⟨fun _ _ _ _ => ih.value_succ, fun _ _ _ _ => ih.items_succ,
        fun _ _ _ _ _ => ih.pairs_succ⟩

/-! ## Statements -/

/-- One statement is read: the table that the next keys belong to, the entries with it, and the text
that it leaves. -/
inductive Statement (table : List String) (es : Entries) (cs : List Char) :
    List String → Entries → List Char → Prop where
  /-- A list of tables. -/
  | tables {keys : List String} {es' : Entries} {next line rest : List Char}
      (hopen : skipLines cs.length cs = '[' :: '[' :: next)
      (hkeys : keys? (next.length + 1) next = some (keys, ']' :: ']' :: line))
      (hadd : addTable keys es = some es') (hline : endOfLine? line = some rest) :
      Statement table es cs keys es' rest
  /-- A table. -/
  | table {keys : List String} {es' : Entries} {next line rest : List Char}
      (hopen : skipLines cs.length cs = '[' :: next)
      (hkeys : keys? (next.length + 1) next = some (keys, ']' :: line))
      (hadd : openTable keys es = some es') (hline : endOfLine? line = some rest) :
      Statement table es cs keys es' rest
  /-- A key with a value. -/
  | key {fuel : ℕ} {keys : List String} {v : Document} {o : Opening} {es' : Entries}
      {next line rest : List Char}
      (hkeys : keys? fuel (skipLines cs.length cs) = some (keys, '=' :: next))
      (hvalue : value? (2 * next.length + 2) maxDepth (skipBlank next) = some (v, line))
      (hassign : change false (assign keys v) table .opened es = some (o, es'))
      (hline : endOfLine? line = some rest) :
      Statement table es cs table es' rest

section

variable {fuel : ℕ} {table table' : List String} {es es' : Entries}

/-- Statements are none, or one and then the rest of them. -/
theorem statements?_cases (h : statements? (fuel + 1) table es cs = some es') :
    es = es' ∨ ∃ table' between rest, Statement table es cs table' between rest ∧
      statements? fuel table' between rest = some es' := by
  unfold statements? at h
  split at h
  · exact .inl (Option.some.inj h)
  · next cs' hopen =>
      simp only [Option.bind_eq_bind, Option.bind_eq_some_iff] at h
      obtain ⟨⟨keys, cs₂⟩, hkeys, h⟩ := h
      simp only at h
      split at h
      · simp only [Option.bind_eq_some_iff] at h
        obtain ⟨between, hadd, rest, hline, h⟩ := h
        exact .inr ⟨keys, between, rest, .tables hopen hkeys hadd hline, h⟩
      · cases h
  · next cs' _ hopen =>
      simp only [Option.bind_eq_bind, Option.bind_eq_some_iff] at h
      obtain ⟨⟨keys, cs₂⟩, hkeys, h⟩ := h
      simp only at h
      split at h
      · simp only [Option.bind_eq_some_iff] at h
        obtain ⟨between, hadd, rest, hline, h⟩ := h
        exact .inr ⟨keys, between, rest, .table hopen hkeys hadd hline, h⟩
      · cases h
  · simp only [Option.bind_eq_bind, Option.bind_eq_some_iff] at h
    obtain ⟨⟨keys, cs₂⟩, hkeys, h⟩ := h
    simp only at h
    split at h
    · simp only [Option.bind_eq_some_iff] at h
      obtain ⟨⟨v, line⟩, hvalue, ⟨o, between⟩, hassign, rest, hline, h⟩ := h
      exact .inr ⟨table, between, rest, .key hkeys hvalue hassign hline, h⟩
    · cases h

/-- A statement keeps the entries tame, and what it leaves is an end of the text. -/
theorem Statement.tame (h : Statement table es cs table' es' rest) (hcalm : Calm cs)
    (hes : TameEntries es) : Calm rest ∧ TameEntries es' := by
  have hskip := skipLines_suffix cs.length cs
  cases h with
  | tables hopen hkeys hadd hline =>
      have hopened := (List.suffix_cons '[' _).trans ((List.suffix_cons '[' _).trans (hopen ▸ hskip))
      have hclosed := (List.suffix_cons ']' _).trans
        ((List.suffix_cons ']' _).trans (keys?_suffix hkeys))
      exact ⟨hcalm.suffix ((endOfLine?_suffix hline).trans (hclosed.trans hopened)),
        hes.addTable hadd⟩
  | table hopen hkeys hadd hline =>
      have hopened := (List.suffix_cons '[' _).trans (hopen ▸ hskip)
      have hclosed := (List.suffix_cons ']' _).trans (keys?_suffix hkeys)
      exact ⟨hcalm.suffix ((endOfLine?_suffix hline).trans (hclosed.trans hopened)),
        hes.openTable hadd⟩
  | @key _ _ _ _ _ next line _ hkeys hvalue hassign hline =>
      have hnext := (List.suffix_cons '=' _).trans ((keys?_suffix hkeys).trans hskip)
      have hvalue' := (skipBlank_suffix next).trans hnext
      obtain ⟨htame, hline'⟩ := (reads _).value _ _ _ _ (hcalm.suffix hvalue') hvalue
      refine ⟨hcalm.suffix (((endOfLine?_suffix hline).trans hline').trans hvalue'), ?_⟩
      exact TameEntries.change (fun o es o' es' heq h => h.assign heq htame) hassign hes

theorem tame_of_statements? (hcalm : Calm cs) (hes : TameEntries es)
    (h : statements? fuel table es cs = some es') : TameEntries es' := by
  induction fuel generalizing table es cs with
  | zero => cases h
  | succ fuel ih =>
      rcases statements?_cases h with rfl | ⟨table', between, rest, hstep, hrest⟩
      · exact hes
      · obtain ⟨hcalm', hbetween⟩ := hstep.tame hcalm hes
        exact ih hcalm' hbetween hrest

end

/-- **TOML.** A text without the word for infinity holds no infinite number. -/
theorem tame_of_calm {s : String} {d : Document} (hcalm : Calm s.toList)
    (h : ofText? s = some d) : d.Tame := by
  simp only [ofText?, Option.bind_eq_bind, Option.bind_eq_some_iff, Option.pure_def,
    Option.some.injEq] at h
  obtain ⟨entries, hentries, rfl⟩ := h
  refine (tame_entries_iff entries).mpr ?_
  split at hentries
  · next cs' hmark =>
      have hsuffix : cs' <:+ s.toList := hmark ▸ List.suffix_cons _ _
      exact tame_of_statements? (hcalm.suffix hsuffix) tameEntries_nil hentries
  · exact tame_of_statements? hcalm tameEntries_nil hentries

end RideHud.Toml
