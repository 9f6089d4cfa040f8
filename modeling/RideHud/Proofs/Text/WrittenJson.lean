import RideHud.Proofs.Text.Shortest
import RideHud.Text.Json

/-!
# Written JSON

A value that is written is read back (`ofText?_pretty`), if its numbers are written in digits and
its texts are texts.
-/

namespace RideHud.Json

open Decimal

/-! ## Numbers -/

/-- A number that is written in digits, without zeros in front that are not needed. -/
structure Numeral.IsPlain (n : Numeral) : Prop where
  whole_ne_nil : n.whole ≠ []
  whole : ∀ c ∈ n.whole, c.isDigit
  zero : n.whole.head? = some '0' → n.whole = ['0']
  fraction : ∀ c ∈ n.fraction, c.isDigit

section

variable {before after : List Char} {y : ℝ}

/-- Digits before and after a point are a plain number. -/
theorem isPlain_of_writes (h : Writes before after y) (negative : Bool) (e : Option Int) :
    Numeral.IsPlain ⟨negative, before, after, e⟩ := by
  obtain ⟨n, rfl⟩ := h.whole
  refine ⟨Nat.toDigits_ne_nil, isDigit_toDigits n, fun hzero => ?_, h.isDigit⟩
  rcases Nat.eq_zero_or_pos n with rfl | hn
  · rfl
  · exact absurd hzero (head?_toDigits hn)

/-- A digit before the point and the others after it are a plain number. -/
theorem isPlain_scientific (n : ℕ) (negative : Bool) (e : Option Int) :
    Numeral.IsPlain
      ⟨negative, (Nat.toDigits 10 n).take 1, (Nat.toDigits 10 n).drop 1, e⟩ := by
  obtain ⟨c, cs, heq, hc⟩ := exists_toDigits_eq_cons n
  have hall := isDigit_toDigits n
  rw [heq] at hall ⊢
  refine ⟨List.cons_ne_nil _ _, ?_, fun hzero => ?_, ?_⟩
  · exact fun d hd => hall d (List.mem_of_mem_take hd)
  · rw [Option.some.inj hzero]
    rfl
  · exact fun d hd => hall d (List.mem_of_mem_drop hd)

theorem isPlain_ofNat (n : ℕ) : (Numeral.ofNat n).IsPlain :=
  isPlain_of_writes (writes_toDigits n) false none

/-- A finite number is written plainly. -/
theorem isPlain_ofFinite (negative : Bool) (s : Shortest) :
    (Numeral.ofFinite negative s).IsPlain := by
  unfold Numeral.ofFinite
  split
  · exact isPlain_of_writes s.writes_parts.fraction.2 negative none
  · exact isPlain_scientific s.digits negative s.leading

end

/-- What stands at the front does not belong to a number. -/
def Ends (cs : List Char) : Prop :=
  ∀ c, cs.head? = some c → c.isDigit = false ∧ c ≠ '.' ∧ c ≠ 'e' ∧ c ≠ 'E'

section

variable {ds rest : List Char}

/-- Digits end before a character that is none. -/
theorem digits?_append (hne : ds ≠ []) (hds : ∀ c ∈ ds, c.isDigit)
    (hrest : ∀ c, rest.head? = some c → c.isDigit = false) :
    digits? (ds ++ rest) = some (ds, rest) := by
  have htake : rest.takeWhile Char.isDigit = [] ∧ rest.dropWhile Char.isDigit = rest := by
    cases rest with
    | nil => exact ⟨rfl, rfl⟩
    | cons c rest =>
        have hc := hrest c rfl
        exact ⟨List.takeWhile_cons_of_neg (by rw [hc]; decide),
          List.dropWhile_cons_of_neg (by rw [hc]; decide)⟩
  unfold digits?
  rw [List.takeWhile_append_of_pos hds, List.dropWhile_append_of_pos hds, htake.1, htake.2,
    List.append_nil]
  simp [hne]

theorem digitsValue_toDigits (n : ℕ) : digitsValue (Nat.toDigits 10 n) = n := by
  have hvalue : digitsValue (Nat.toDigits 10 n) = Nat.ofDigitChars 10 (Nat.toDigits 10 n) 0 := by
    rw [digitsValue, Nat.ofDigitChars_eq_foldl]
    refine List.foldl_ext _ _ 0 fun n c _ => ?_
    rw [mul_comm]
    rfl
  rw [hvalue, Nat.ofDigitChars_ten_toDigits]

theorem exponentDigits?_append (negative : Bool) (n : ℕ)
    (hrest : ∀ c, rest.head? = some c → c.isDigit = false) :
    exponentDigits? negative (Nat.toDigits 10 n ++ rest)
      = some (some (if negative then -(n : ℤ) else n), rest) := by
  rw [exponentDigits?, digits?_append Nat.toDigits_ne_nil (isDigit_toDigits n) hrest]
  simp only [Option.bind_eq_bind, Option.bind_some, digitsValue_toDigits]
  rfl

/-- The text of the digits after the point. -/
def Numeral.fractionText (n : Numeral) : List Char :=
  if n.fraction.isEmpty then [] else '.' :: n.fraction

/-- The text of the exponent. -/
def Numeral.exponentText (n : Numeral) : List Char :=
  n.exponent.elim [] fun e => (if e < 0 then s!"e{e}" else s!"e+{e}").toList

theorem Numeral.toList_render (n : Numeral) :
    n.render.toList
      = (signText n.negative).toList ++ (n.whole ++ (n.fractionText ++ n.exponentText)) := by
  unfold render fractionText exponentText
  simp only [String.toList_append, String.toList_ofList, List.append_assoc]
  congr 2
  congr 1
  · split
    · rfl
    · rw [String.toList_append, String.toList_ofList (l := n.fraction)]
      rfl
  · cases n.exponent <;> rfl

theorem toList_exponent_ofNat (n : ℕ) :
    s!"e+{Int.ofNat n}".toList = 'e' :: '+' :: Nat.toDigits 10 n := by
  show ("e+" ++ toString n).toList = _
  rw [String.toList_append, Nat.toString_eq_ofList_toDigits,
    String.toList_ofList (l := Nat.toDigits 10 n)]
  rfl

theorem toList_exponent_negSucc (n : ℕ) :
    s!"e{Int.negSucc n}".toList = 'e' :: '-' :: Nat.toDigits 10 (n + 1) := by
  show ("e" ++ ("-" ++ toString (n + 1))).toList = _
  rw [String.toList_append, String.toList_append, Nat.toString_eq_ofList_toDigits,
    String.toList_ofList (l := Nat.toDigits 10 (n + 1))]
  rfl

/-- The text of an exponent. -/
theorem exponent?_append (n : Numeral) (hrest : Ends rest) :
    exponent? (n.exponentText ++ rest) = some (n.exponent, rest) := by
  have hrest' : ∀ c, rest.head? = some c → c.isDigit = false := fun c hc => (hrest c hc).1
  unfold Numeral.exponentText
  rcases n.exponent with _ | n | n
  · cases rest with
    | nil => rfl
    | cons c rest =>
        obtain ⟨-, -, he, hE⟩ := hrest c rfl
        show exponent? (c :: rest) = _
        unfold exponent?
        simp [he, hE]
  · rw [Option.elim_some, if_neg (by simp), toList_exponent_ofNat]
    exact exponentDigits?_append false n hrest'
  · rw [Option.elim_some, if_pos (Int.negSucc_lt_zero n), toList_exponent_negSucc]
    exact exponentDigits?_append true (n + 1) hrest'

/-- What stands behind the digits of a number is no digit. -/
theorem head?_exponentText (n : Numeral) (hrest : Ends rest) {c : Char}
    (hc : (n.exponentText ++ rest).head? = some c) : c.isDigit = false ∧ c ≠ '.' := by
  unfold Numeral.exponentText at hc
  generalize n.exponent = e at hc
  rcases e with _ | n | n
  · exact ⟨(hrest c hc).1, (hrest c hc).2.1⟩
  · rw [Option.elim_some, if_neg (by simp), toList_exponent_ofNat] at hc
    obtain rfl := Option.some.inj hc
    decide
  · rw [Option.elim_some, if_pos (Int.negSucc_lt_zero n), toList_exponent_negSucc] at hc
    obtain rfl := Option.some.inj hc
    decide

/-- The text of a fraction. -/
theorem fraction?_append {n : Numeral} (hn : n.IsPlain)
    (hrest : ∀ c, rest.head? = some c → c.isDigit = false ∧ c ≠ '.') :
    fraction? (n.fractionText ++ rest) = some (n.fraction, rest) := by
  unfold Numeral.fractionText
  split
  · next hempty =>
      rw [List.isEmpty_iff.mp hempty, List.nil_append]
      unfold fraction?
      split
      · exact absurd rfl (hrest _ rfl).2
      · rfl
  · next hne =>
      exact digits?_append (by simpa using hne) hn.fraction fun c hc => (hrest c hc).1

/-- What stands behind the digits before the point is no digit. -/
theorem head?_fractionText (n : Numeral) (hrest : ∀ c, rest.head? = some c → c.isDigit = false)
    {c : Char} (hc : (n.fractionText ++ rest).head? = some c) : c.isDigit = false := by
  unfold Numeral.fractionText at hc
  split at hc
  · exact hrest c hc
  · obtain rfl := Option.some.inj hc
    rfl

/-- **Numbers.** A number is read as it was written. -/
theorem numeral?_render {n : Numeral} (hn : n.IsPlain) (hrest : Ends rest) :
    numeral? (n.render.toList ++ rest) = some (n, rest) := by
  have hexponent := exponent?_append n hrest
  have hend (c : Char) (hc : (n.exponentText ++ rest).head? = some c) :=
    head?_exponentText n hrest hc
  have hfraction := fraction?_append hn hend
  have hpoint (c : Char) (hc : (n.fractionText ++ (n.exponentText ++ rest)).head? = some c) :=
    head?_fractionText n (fun c hc => (hend c hc).1) hc
  have hdigits := digits?_append hn.whole_ne_nil hn.whole hpoint
  rw [n.toList_render, List.append_assoc, List.append_assoc, List.append_assoc]
  generalize n.fractionText ++ (n.exponentText ++ rest) = tail at *
  generalize n.exponentText ++ rest = tail' at *
  obtain ⟨c, cs, hcons⟩ := List.exists_cons_of_ne_nil hn.whole_ne_nil
  have hc := hn.whole c (hcons ▸ List.mem_cons_self)
  have hzero := hn.zero
  obtain ⟨negative, whole, fraction, exponent⟩ := n
  simp only at hcons hdigits hfraction hexponent hzero
  subst hcons
  have hsign : (signText negative).toList = if negative then ['-'] else [] := by
    cases negative <;> rfl
  have hminus : c ≠ '-' := ne_of_isDigit hc rfl
  unfold numeral?
  rw [hsign]
  -- A zero in front stands alone.
  by_cases hfirst : c = '0'
  · subst hfirst
    obtain rfl : cs = [] := (List.cons.inj (hzero rfl)).2
    have hnext : (tail.headD ' ').isDigit = false := by
      cases tail with
      | nil => rfl
      | cons d tail => exact hpoint d rfl
    rw [List.headD_eq_head?_getD] at hnext
    cases negative <;> simp [hnext, hfraction, hexponent]
  · have hzero (cs' : List Char) : c :: (cs ++ tail) ≠ '0' :: cs' :=
      fun heq => hfirst (List.cons.inj heq).1
    rw [List.cons_append] at hdigits
    cases negative <;> simp [hdigits, hfraction, hexponent, hminus]

/-- A number starts with a digit or a minus. -/
theorem exists_render_eq_cons {n : Numeral} (hn : n.IsPlain) :
    ∃ c cs, n.render.toList = c :: cs ∧ ∀ d, (!d.isDigit && d != '-') = true → c ≠ d := by
  obtain ⟨c, cs, hcons⟩ := List.exists_cons_of_ne_nil hn.whole_ne_nil
  rw [n.toList_render, hcons]
  cases n.negative with
  | true => exact ⟨'-', _, rfl, fun d hd heq => by simp [← heq] at hd⟩
  | false =>
      have hc := hn.whole c (hcons ▸ List.mem_cons_self)
      exact ⟨c, _, rfl, fun d hd heq => by simp [← heq, hc] at hd⟩

end

/-! ## Texts -/

/-- The number of a control character. -/
theorem hexWord?_hexChar : ∀ n : Fin 32,
    hexWord? '0' '0' (hexChar (n / 16)) (hexChar (n % 16)) = some n.val := by
  decide

/-- A piece stands for a character: it is what is read of the character in quotes, whatever follows,
and it is joined to the others as that character. -/
structure Piece.StandsFor (p : Piece) (c : Char) : Prop where
  pieces_append : ∀ cs ps rest, pieces cs = some (ps, rest) →
    pieces ((quotedChar c).toList ++ cs) = some (p :: ps, rest)
  join_cons : ∀ ps, join (p :: ps) = (join ps).map (c :: ·)

/-- A control character without a letter of its own stands as its number. -/
theorem standsFor_unit {c : Char} (hcontrol : c.toNat < 32)
    (hquoted : quotedChar c = "\\u00" ++ String.singleton (hexChar (c.toNat / 16)) ++
      String.singleton (hexChar (c.toNat % 16))) : (Piece.unit c.toNat).StandsFor c where
  pieces_append cs ps rest h := by
    have htext : (quotedChar c).toList
        = ['\\', 'u', '0', '0', hexChar (c.toNat / 16), hexChar (c.toNat % 16)] := by
      rw [hquoted, String.toList_append, String.toList_append, String.toList_singleton,
        String.toList_singleton]
      rfl
    have hword := hexWord?_hexChar ⟨c.toNat, hcontrol⟩
    rw [htext]
    simp only [List.cons_append, List.nil_append, pieces, h]
    rw [hword]
    rfl
  join_cons ps := by
    rw [join.eq_def (.unit c.toNat :: ps)]
    simp only
    rw [if_pos (.inl (by omega)), Char.ofNat_toNat]

/-- Every other character that needs no quoting stands as it is. -/
theorem standsFor_char {c : Char} (hplain : ¬c.toNat < 32) (hquote : c ≠ '"') (hslash : c ≠ '\\')
    (hquoted : quotedChar c = String.singleton c) : (Piece.char c).StandsFor c where
  pieces_append cs ps rest h := by
    rw [hquoted, String.toList_singleton, List.singleton_append]
    unfold pieces
    split
    · next heq => cases heq
    · next heq => exact absurd (List.cons.inj heq).1 hquote
    · next heq => exact absurd (List.cons.inj heq).1 hslash
    · next heq => exact absurd (List.cons.inj heq).1 hslash
    · next heq =>
        obtain ⟨rfl, rfl⟩ := List.cons.inj heq
        rw [if_neg (by simpa [hplain] using hslash), h]
        rfl
  join_cons _ := rfl

/-- A character in quotes is read as one piece. -/
theorem exists_piece (c : Char) : ∃ p : Piece, p.StandsFor c := by
  have hquoted := quotedChar.eq_def c
  split at hquoted
  case h_8 hquote hslash _ _ _ _ _ =>
    split at hquoted
    · next hcontrol => exact ⟨_, standsFor_unit hcontrol hquoted⟩
    · next hplain => exact ⟨_, standsFor_char hplain hquote hslash hquoted⟩
  all_goals
    exact ⟨.char _, fun cs ps rest h => by simp [hquoted, pieces, escape?, h], fun _ => rfl⟩

/-- The pieces of characters in quotes. -/
theorem exists_pieces (cs rest : List Char) : ∃ ps,
    pieces (cs.flatMap (fun c => (quotedChar c).toList) ++ '"' :: rest) = some (ps, rest) ∧
      join ps = some cs := by
  induction cs with
  | nil => exact ⟨[], rfl, rfl⟩
  | cons c cs ih =>
      obtain ⟨ps, hpieces, hjoin⟩ := ih
      obtain ⟨p, hp⟩ := exists_piece c
      refine ⟨p :: ps, ?_, by rw [hp.join_cons, hjoin, Option.map_some]⟩
      rw [List.flatMap_cons, List.append_assoc]
      exact hp.pieces_append _ _ _ hpieces

/-- A text in quotes is read as it is. -/
theorem text?_append (s : String) (rest : List Char) :
    text? (s.toList.flatMap (fun c => (quotedChar c).toList) ++ '"' :: rest)
      = some (some s, rest) := by
  obtain ⟨ps, hpieces, hjoin⟩ := exists_pieces s.toList rest
  rw [text?, hpieces]
  simp only [Option.bind_eq_bind, Option.bind_some, hjoin, Option.map_some, String.ofList_toList]
  rfl

theorem toList_quoted (s : String) :
    (quoted s).toList = '"' :: (s.toList.flatMap (fun c => (quotedChar c).toList) ++ ['"']) := by
  rw [quoted, String.toList_append, String.toList_append, String.toList_join, List.flatMap_map]
  rfl

/-! ## Blanks -/

section

variable {blank cs : List Char}

theorem skipBlank_append (hblank : ∀ c ∈ blank, isBlank c) :
    skipBlank (blank ++ cs) = skipBlank cs :=
  List.dropWhile_append_of_pos hblank

theorem skipBlank_cons {c : Char} (hc : isBlank c = false) : skipBlank (c :: cs) = c :: cs :=
  List.dropWhile_cons_of_neg (by rw [hc]; decide)

/-- A new line is blank. -/
theorem isBlank_newline (level : ℕ) : ∀ c ∈ (newline level).toList, isBlank c := by
  intro c hc
  rw [newline, toList_pushn, List.mem_append, List.mem_replicate] at hc
  rcases hc with hc | ⟨-, rfl⟩
  · obtain rfl := List.mem_singleton.mp hc
    rfl
  · rfl

theorem ends_newline (level : ℕ) (cs : List Char) : Ends ((newline level).toList ++ cs) := by
  intro c hc
  rw [newline, toList_pushn] at hc
  obtain rfl := Option.some.inj hc
  decide

/-- Blanks in front of a value are skipped. -/
theorem value?_append (fuel : ℕ) (hblank : ∀ c ∈ blank, isBlank c) :
    value? fuel (blank ++ cs) = value? fuel cs := by
  cases fuel with
  | zero => rfl
  | succ fuel => rw [value?, value?, skipBlank_append hblank]

theorem items?_append (fuel : ℕ) (hblank : ∀ c ∈ blank, isBlank c) :
    items? fuel (blank ++ cs) = items? fuel cs := by
  cases fuel with
  | zero => rfl
  | succ fuel => rw [items?, items?, value?_append fuel hblank]

theorem entries?_append (fuel : ℕ) (hblank : ∀ c ∈ blank, isBlank c) :
    entries? fuel (blank ++ cs) = entries? fuel cs := by
  cases fuel with
  | zero => rfl
  | succ fuel => rw [entries?, entries?, skipBlank_append hblank]

/-- A list that is not closed at once has items. -/
theorem value?_bracket {fuel : ℕ} (hblank : ∀ c ∈ blank, isBlank c) {c : Char}
    (hc : isBlank c = false) (hopen : c ≠ ']') {items : List Json} {rest : List Char}
    (h : items? fuel (c :: cs) = some (items, rest)) :
    value? (fuel + 1) ('[' :: (blank ++ c :: cs)) = some (.array items, rest) := by
  rw [value?, skipBlank_cons rfl]
  simp only
  rw [skipBlank_append hblank, skipBlank_cons hc]
  split
  · next hclose => exact absurd (List.cons.inj hclose).1 hopen
  · rw [h]
    rfl

/-- An object that is not closed at once has entries. -/
theorem value?_brace {fuel : ℕ} (hblank : ∀ c ∈ blank, isBlank c) {c : Char}
    (hc : isBlank c = false) (hopen : c ≠ '}') {entries : List (String × Json)} {rest : List Char}
    (h : entries? fuel (c :: cs) = some (entries, rest)) :
    value? (fuel + 1) ('{' :: (blank ++ c :: cs)) = some (.object entries, rest) := by
  rw [value?, skipBlank_cons rfl]
  simp only
  rw [skipBlank_append hblank, skipBlank_cons hc]
  split
  · next hclose => exact absurd (List.cons.inj hclose).1 hopen
  · rw [h]
    rfl

end

/-! ## Values -/

/-- A value whose numbers are plain, and whose texts are texts. -/
inductive IsPlain : Json → Prop
  | null : IsPlain .null
  | bool (b : Bool) : IsPlain (.bool b)
  | number {n : Numeral} : n.IsPlain → IsPlain (.number n)
  | text (s : String) : IsPlain (.text (some s))
  | array {items : List Json} : (∀ v ∈ items, IsPlain v) → IsPlain (.array items)
  | object {entries : List (String × Json)} : (∀ e ∈ entries, IsPlain e.2) →
      IsPlain (.object entries)

section

variable (level : ℕ) (k : String) (v : Json) (vs : List Json) (es : List (String × Json))

theorem toList_array : (prettyAt level (.array (v :: vs))).toList
    = '[' :: ((newline (level + 1)).toList ++ ((prettyAt (level + 1) v).toList ++
      ((prettyItems (level + 1) vs).toList ++ ((newline level).toList ++ [']'])))) := by
  rw [prettyAt]
  simp only [String.toList_append, List.append_assoc]
  rfl

theorem toList_prettyItems : (prettyItems level (v :: vs)).toList
    = ',' :: ((newline level).toList ++ ((prettyAt level v).toList ++
      (prettyItems level vs).toList)) := by
  rw [prettyItems]
  simp only [String.toList_append, List.append_assoc]
  rfl

/-- The text of an entry. -/
def entryText : List Char :=
  (quoted k).toList ++ (':' :: ' ' :: (prettyAt level v).toList)

theorem toList_object : (prettyAt level (.object ((k, v) :: es))).toList
    = '{' :: ((newline (level + 1)).toList ++ (entryText (level + 1) k v ++
      ((prettyEntries (level + 1) es).toList ++ ((newline level).toList ++ ['}'])))) := by
  rw [prettyAt, entryText]
  simp only [String.toList_append, List.append_assoc]
  rfl

theorem toList_prettyEntries : (prettyEntries level ((k, v) :: es)).toList
    = ',' :: ((newline level).toList ++ (entryText level k v ++
      (prettyEntries level es).toList)) := by
  rw [prettyEntries, entryText]
  simp only [String.toList_append, List.append_assoc]
  rfl

end

/-- The text of a value does not start with a blank or with the end of a list. -/
theorem IsPlain.exists_prettyAt_eq_cons {v : Json} (hv : v.IsPlain) (level : ℕ) :
    ∃ c cs, (prettyAt level v).toList = c :: cs ∧ isBlank c = false ∧ c ≠ ']' := by
  cases hv with
  | null => exact ⟨'n', _, by rw [prettyAt]; rfl, by decide, by decide⟩
  | bool b =>
      cases b with
      | true => exact ⟨'t', _, by rw [prettyAt]; rfl, by decide, by decide⟩
      | false => exact ⟨'f', _, by rw [prettyAt]; rfl, by decide, by decide⟩
  | number hn =>
      obtain ⟨c, cs, heq, hne⟩ := exists_render_eq_cons hn
      refine ⟨c, cs, by rw [prettyAt, heq], ?_, hne _ (by decide)⟩
      simp (disch := decide) [isBlank, hne]
  | text s => exact ⟨'"', _, by rw [prettyAt, toList_quoted], by decide, by decide⟩
  | @array items _ =>
      cases items with
      | nil => exact ⟨'[', _, by rw [prettyAt]; rfl, by decide, by decide⟩
      | cons v vs => exact ⟨'[', _, toList_array level v vs, by decide, by decide⟩
  | @object entries _ =>
      cases entries with
      | nil => exact ⟨'{', _, by rw [prettyAt]; rfl, by decide, by decide⟩
      | cons e es => exact ⟨'{', _, toList_object level e.1 e.2 es, by decide, by decide⟩

theorem isPlain_ofFloat (x : Float) : (ofFloat x).IsPlain := by
  unfold ofFloat
  split
  · exact .null
  · exact .null
  · exact .number (isPlain_of_writes (writes_toDigits 0).zero _ none)
  · exact .number (isPlain_ofFinite _ _)

/-- A value is read from its text, whatever follows. -/
def Reads (v : Json) : Prop :=
  ∀ level fuel rest, Ends rest → 2 * (prettyAt level v).toList.length ≤ fuel →
    value? (fuel + 1) ((prettyAt level v).toList ++ rest) = some (v, rest)

/-- A number is read as a value. -/
theorem reads_number {n : Numeral} (hn : n.IsPlain) : (number n).Reads := by
  intro level fuel rest hrest _
  obtain ⟨c, cs, heq, hne⟩ := exists_render_eq_cons hn
  have hnumeral := numeral?_render hn hrest
  have hblank : isBlank c = false := by
    simp (disch := decide) [isBlank, hne]
  rw [heq, List.cons_append] at hnumeral
  rw [prettyAt, heq, List.cons_append, value?, skipBlank_cons hblank]
  split
  case h_7 =>
    rw [hnumeral]
    rfl
  all_goals
    next hfirst => exact absurd (List.cons.inj hfirst).1 (hne _ (by decide))

theorem ends_comma (cs : List Char) : Ends (',' :: cs) := by
  intro c hc
  obtain rfl := Option.some.inj hc
  decide

/-- The items of a list are read up to its end. -/
theorem items?_prettyItems {v : Json} {vs : List Json} (h : ∀ w ∈ v :: vs, w.Reads)
    {level fuel : ℕ} (below : ℕ) (rest : List Char)
    (hfuel : 2 * ((prettyAt level v).toList.length + (prettyItems level vs).toList.length)
      ≤ fuel) :
    items? (fuel + 2) ((prettyAt level v).toList ++ ((prettyItems level vs).toList ++
      ((newline below).toList ++ ']' :: rest))) = some (v :: vs, rest) := by
  induction vs generalizing v fuel with
  | nil =>
      have hv := h v List.mem_cons_self level fuel _ (ends_newline below (']' :: rest)) (by omega)
      rw [prettyItems, String.toList_empty, List.nil_append, items?, hv]
      simp only [Option.bind_eq_bind, Option.bind_some]
      rw [skipBlank_append (isBlank_newline below), skipBlank_cons rfl]
      rfl
  | cons w vs ih =>
      rw [toList_prettyItems] at hfuel ⊢
      simp only [List.length_cons, List.length_append] at hfuel
      have hv (cs : List Char) := h v List.mem_cons_self level fuel _ (ends_comma cs) (by omega)
      rw [List.cons_append, items?, hv]
      simp only [Option.bind_eq_bind, Option.bind_some]
      rw [skipBlank_cons rfl]
      simp only [List.append_assoc]
      obtain ⟨fuel, rfl⟩ : ∃ n, fuel = n + 1 := ⟨fuel - 1, by omega⟩
      rw [items?_append (fuel + 2) (isBlank_newline level),
        ih (fun w hw => h w (List.mem_cons_of_mem v hw)) (by omega)]
      rfl

/-- An entry is read, and the entries after it if there are any. -/
theorem entries?_entryText {k : String} {v : Json} (hv : v.Reads) {level fuel : ℕ}
    (hfuel : 2 * (entryText level k v).length ≤ fuel) {cs rest : List Char} (hcs : Ends cs)
    {es : List (String × Json)} (hes : (skipBlank cs = '}' :: rest ∧ es = []) ∨
      ∃ cs', skipBlank cs = ',' :: cs' ∧ entries? (fuel + 1) cs' = some (es, rest)) :
    entries? (fuel + 2) (entryText level k v ++ cs) = some ((k, v) :: es, rest) := by
  rw [entryText] at hfuel ⊢
  simp only [List.length_cons, List.length_append] at hfuel
  have hspace : value? (fuel + 1) ([' '] ++ ((prettyAt level v).toList ++ cs))
      = value? (fuel + 1) ((prettyAt level v).toList ++ cs) :=
    value?_append (fuel + 1) (List.forall_mem_singleton.mpr rfl)
  have hvalue := hspace.trans (hv level fuel cs hcs (by omega))
  rw [List.singleton_append] at hvalue
  rw [List.append_assoc, toList_quoted, List.cons_append, List.append_assoc, entries?,
    skipBlank_cons rfl]
  simp only [List.cons_append, List.nil_append]
  rw [text?_append]
  simp only [Option.bind_eq_bind, Option.bind_some]
  rw [skipBlank_cons rfl]
  simp only [hvalue, Option.bind_some]
  rcases hes with ⟨hclose, rfl⟩ | ⟨cs', hcomma, hes⟩
  · rw [hclose]
    rfl
  · rw [hcomma]
    simp only [hes]
    rfl

/-- The entries of an object are read up to its end. -/
theorem entries?_prettyEntries {k : String} {v : Json} {es : List (String × Json)}
    (h : ∀ e ∈ (k, v) :: es, e.2.Reads) {level fuel : ℕ} (below : ℕ) (rest : List Char)
    (hfuel : 2 * ((entryText level k v).length + (prettyEntries level es).toList.length) ≤ fuel) :
    entries? (fuel + 2) (entryText level k v ++ ((prettyEntries level es).toList ++
      ((newline below).toList ++ '}' :: rest))) = some ((k, v) :: es, rest) := by
  have hv : v.Reads := h (k, v) List.mem_cons_self
  induction es generalizing k v fuel with
  | nil =>
      rw [prettyEntries, String.toList_empty, List.nil_append]
      refine entries?_entryText hv (by omega) (ends_newline below _) (.inl ⟨?_, rfl⟩)
      rw [skipBlank_append (isBlank_newline below), skipBlank_cons rfl]
  | cons e es ih =>
      rw [toList_prettyEntries] at hfuel ⊢
      simp only [List.length_cons, List.length_append] at hfuel
      have htail (e' : String × Json) (he' : e' ∈ e :: es) := h e' (List.mem_cons_of_mem _ he')
      simp only [List.cons_append, List.append_assoc]
      refine entries?_entryText hv (by omega) (ends_comma _) (.inr ⟨_, skipBlank_cons rfl, ?_⟩)
      obtain ⟨fuel, rfl⟩ : ∃ n, fuel = n + 1 := ⟨fuel - 1, by omega⟩
      rw [entries?_append (fuel + 2) (isBlank_newline level)]
      exact ih htail (by omega) (htail e List.mem_cons_self)

theorem reads_text (s : String) : (text (some s)).Reads := by
  intro level fuel rest _ _
  rw [prettyAt, Option.getD_some, toList_quoted, List.cons_append, List.append_assoc, value?,
    skipBlank_cons rfl]
  simp only [List.cons_append, List.nil_append]
  rw [text?_append]
  rfl

/-- A list is read if its items are. -/
theorem reads_array {items : List Json} (hplain : ∀ v ∈ items, v.IsPlain)
    (h : ∀ v ∈ items, v.Reads) : (array items).Reads := by
  intro level fuel rest _ hfuel
  cases items with
  | nil =>
      rw [prettyAt]
      rfl
  | cons v vs =>
      obtain ⟨c, cs, heq, hblank, hc⟩ :=
        (hplain v List.mem_cons_self).exists_prettyAt_eq_cons (level + 1)
      rw [toList_array] at hfuel ⊢
      simp only [List.length_cons, List.length_append] at hfuel
      obtain ⟨fuel, rfl⟩ : ∃ n, fuel = n + 2 := ⟨fuel - 2, by omega⟩
      have hlength : 2 * ((prettyAt (level + 1) v).toList.length +
          (prettyItems (level + 1) vs).toList.length) ≤ fuel := by omega
      have hitems := items?_prettyItems h level rest hlength
      simp only [List.cons_append, List.append_assoc, List.nil_append]
      rw [heq, List.cons_append] at hitems ⊢
      exact value?_bracket (isBlank_newline (level + 1)) hblank hc hitems

/-- An object is read if its values are. -/
theorem reads_object {entries : List (String × Json)} (h : ∀ e ∈ entries, e.2.Reads) :
    (object entries).Reads := by
  intro level fuel rest _ hfuel
  cases entries with
  | nil =>
      rw [prettyAt]
      rfl
  | cons e es =>
      rw [toList_object] at hfuel ⊢
      simp only [List.length_cons, List.length_append] at hfuel
      obtain ⟨fuel, rfl⟩ : ∃ n, fuel = n + 2 := ⟨fuel - 2, by omega⟩
      have hlength : 2 * ((entryText (level + 1) e.1 e.2).length +
          (prettyEntries (level + 1) es).toList.length) ≤ fuel := by omega
      have hentries := entries?_prettyEntries h level rest hlength
      simp only [List.cons_append, List.append_assoc, List.nil_append]
      rw [entryText, toList_quoted, List.cons_append, List.cons_append] at hentries ⊢
      exact value?_brace (isBlank_newline (level + 1)) rfl (by decide) hentries

/-- A plain value is read from its text, whatever follows. -/
theorem IsPlain.reads {v : Json} (hv : v.IsPlain) : v.Reads := by
  induction hv with
  | null =>
      intro level fuel rest _ _
      rw [prettyAt]
      rfl
  | bool b =>
      intro level fuel rest _ _
      rw [prettyAt]
      cases b <;> rfl
  | number hn => exact reads_number hn
  | text s => exact reads_text s
  | array h ih => exact reads_array h ih
  | object _ ih => exact reads_object ih

/-- **Values.** A plain value is read from the text that is written for it. -/
theorem ofText?_pretty {v : Json} (hv : v.IsPlain) : ofText? v.pretty = some v := by
  have hread := hv.reads 0 (2 * v.pretty.toList.length + 1) [] nofun (by rw [pretty]; omega)
  rw [List.append_nil, ← pretty] at hread
  rw [ofText?]
  simp only [hread]
  rfl

end RideHud.Json
