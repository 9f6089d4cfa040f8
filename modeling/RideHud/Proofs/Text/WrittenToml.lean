import RideHud.Proofs.Text.Shortest
import RideHud.Text.Toml

/-!
# Written TOML

What is written in TOML is read back. Values are those that settings have: whole numbers, numbers
with a point, infinity and texts without escapes (`Shows`). They stand behind plain keys, below the
headers of tables (`Gives`).
-/

namespace RideHud.Toml

open Binary64 Decimal

/-! ## Digits -/

section

variable {ds : List Char}

theorem hexDigit?_of_isDigit {c : Char} (hc : c.isDigit) :
    Json.hexDigit? c = some (c.toNat - 48) := by
  have hbounds := (isDigit_iff c).mp hc
  refine if_pos ⟨?_, ?_⟩
  · exact UInt32.le_iff_toNat_le.mpr hbounds.1
  · exact UInt32.le_iff_toNat_le.mpr hbounds.2

theorem value_eq (h : ∀ c ∈ ds, c.isDigit) : value 10 ds = Nat.ofDigitChars 10 ds 0 := by
  rw [value, Nat.ofDigitChars_eq_foldl]
  refine List.foldl_ext _ _ 0 fun n c hc => ?_
  rw [hexDigit?_of_isDigit (h c hc), mul_comm]
  rfl

theorem go_of_isDigit (h : ∀ c ∈ ds, c.isDigit) {afterDigit : Bool}
    (hne : afterDigit = true ∨ ds ≠ []) : digits?.go Char.isDigit afterDigit ds = some ds := by
  induction ds generalizing afterDigit with
  | nil =>
      rw [hne.resolve_right (not_not_intro rfl), digits?.go.eq_def]
      rfl
  | cons c ds ih =>
      rw [digits?.go.eq_def]
      simp only [h c List.mem_cons_self, if_true]
      rw [ih (fun d hd => h d (List.mem_cons_of_mem c hd)) (.inl rfl)]
      rfl

theorem digits?_of_isDigit (h : ∀ c ∈ ds, c.isDigit) (hne : ds ≠ []) :
    digits? Char.isDigit ds = some ds :=
  go_of_isDigit h (.inr hne)

/-- A point does not belong to digits. -/
theorem digits?_append_point (h : ∀ c ∈ ds, c.isDigit) (rest : List Char) :
    digits? Char.isDigit (ds ++ '.' :: rest) = none := by
  have hgo (afterDigit : Bool) : digits?.go Char.isDigit afterDigit (ds ++ '.' :: rest) = none := by
    induction ds generalizing afterDigit with
    | nil =>
        rw [List.nil_append, digits?.go.eq_def]
        rfl
    | cons c ds ih =>
        rw [List.cons_append, digits?.go.eq_def]
        simp only [h c List.mem_cons_self, if_true]
        rw [ih fun d hd => h d (List.mem_cons_of_mem c hd)]
        rfl
  exact hgo false

end

theorem decimal?_toDigits (n : ℕ) : decimal? (Nat.toDigits 10 n) = some (Nat.toDigits 10 n) := by
  rw [decimal?, digits?_of_isDigit (isDigit_toDigits n) Nat.toDigits_ne_nil]
  refine if_neg ?_
  rw [Bool.and_eq_true, beq_iff_eq, decide_eq_true_eq]
  rintro ⟨hhead, hlong⟩
  rcases Nat.eq_zero_or_pos n with rfl | hpos
  · exact absurd hlong (by decide)
  · exact head?_toDigits hpos hhead

/-! ## Numbers -/

section

variable {ds : List Char}

theorem ofDigitChars_lt (h : ∀ c ∈ ds, c.isDigit) : Nat.ofDigitChars 10 ds 0 < 10 ^ ds.length := by
  induction ds with
  | nil => decide
  | cons c ds ih =>
      have hc := (isDigit_iff c).mp (h c List.mem_cons_self)
      have hrest := ih fun d hd => h d (List.mem_cons_of_mem c hd)
      have hzero : '0'.toNat = 48 := rfl
      rw [Nat.ofDigitChars_cons, Nat.ofDigitChars_eq_ofDigitChars_zero, List.length_cons, pow_succ]
      have hfirst : 10 ^ ds.length * (10 * 0 + (c.toNat - '0'.toNat)) ≤ 10 ^ ds.length * 9 :=
        Nat.mul_le_mul_left _ (by omega)
      omega

/-- Zeros in front do not count. -/
theorem ofDigitChars_dropWhile (ds : List Char) :
    Nat.ofDigitChars 10 (ds.dropWhile (· == '0')) 0 = Nat.ofDigitChars 10 ds 0 := by
  induction ds with
  | nil => rfl
  | cons c ds ih =>
      rw [List.dropWhile_cons]
      split
      · next hc =>
          rw [ih, beq_iff_eq.mp hc]
          rfl
      · rfl

/-- A number that does not start with a zero is as large as its length tells. -/
theorem le_ofDigitChars {c : Char} (hc : c.isDigit) (hne : c ≠ '0') :
    10 ^ ds.length ≤ Nat.ofDigitChars 10 (c :: ds) 0 := by
  have hbounds := (isDigit_iff c).mp hc
  have hzero : '0'.toNat = 48 := rfl
  have hpos : c.toNat ≠ 48 := fun heq => hne (Char.toNat_inj.mp heq)
  rw [Nat.ofDigitChars_cons, Nat.ofDigitChars_eq_ofDigitChars_zero]
  exact (Nat.le_mul_of_pos_right _ (by omega)).trans (Nat.le_add_right _ _)

/-- **Numbers.** Digits with an exponent are read as the number that is rounded from them. -/
theorem scaled?_of_rounds (h : ∀ c ∈ ds, c.isDigit) {e : ℤ} {x : Float} (hx : x.isFinite)
    (hzero : Binary64.value x = 0 → x = 0)
    (hrounds : Rounds x (Nat.ofDigitChars 10 ds 0 * (10 : ℝ) ^ e)) : scaled? ds e = some x := by
  rw [← ofDigitChars_dropWhile] at hrounds
  have h' : ∀ c ∈ ds.dropWhile (· == '0'), c.isDigit :=
    fun c hc => h c (List.dropWhile_sublist _ |>.subset hc)
  have hhead := List.head?_dropWhile_not (· == '0') ds
  unfold scaled?
  simp only [value_eq h']
  generalize ds.dropWhile (· == '0') = ds' at *
  cases ds' with
  | nil =>
      rw [Nat.ofDigitChars_nil, Nat.cast_zero, zero_mul] at hrounds
      rw [hzero (hrounds.value_eq hx representable_zero)]
      rfl
  | cons c ds' =>
      have hlow : 10 ^ ds'.length ≤ Nat.ofDigitChars 10 (c :: ds') 0 :=
        le_ofDigitChars (h' c List.mem_cons_self) (by simpa using hhead)
      have hhigh := ofDigitChars_lt h'
      rw [List.length_cons] at hhigh ⊢
      generalize Nat.ofDigitChars 10 (c :: ds') 0 = n at *
      have hstep : (0 : ℝ) < 10 ^ e := by positivity
      have hpos : (0 : ℝ) < n := by
        exact_mod_cast lt_of_lt_of_le (Nat.pow_pos (by decide)) hlow
      have hle : (10 : ℝ) ^ ((ds'.length : ℤ) + e) ≤ n * (10 : ℝ) ^ e := by
        rw [zpow_add₀ (by norm_num), zpow_natCast]
        gcongr
        exact_mod_cast hlow
      have hlt : n * (10 : ℝ) ^ e < (10 : ℝ) ^ (((ds'.length + 1 : ℕ) : ℤ) + e) := by
        rw [zpow_add₀ (by norm_num), zpow_natCast]
        gcongr
        exact_mod_cast hhigh
      by_cases hsmall : ((ds'.length + 1 : ℕ) : ℤ) + e < -400
      · rw [hzero (hrounds.value_eq_zero hx (by positivity) hsmall.le hlt)]
        exact if_pos (by simpa using hsmall)
      · have hlarge := hrounds.lt_of_pow_le hx hle
        have hsame := (Shortest.toFloat_rounds ⟨n, e⟩).unique hrounds (mul_pos hpos hstep).ne'
        rw [if_neg (by simpa using hsmall), if_neg (by push_cast; omega), hsame,
          isInf_of_isFinite hx]
        rfl

/-- A number with a point is read from its digits. -/
theorem unsigned?_point {before after : List Char} {y : ℝ} (h : Writes before after y)
    (hne : after ≠ []) : unsigned? (before ++ '.' :: after)
      = some (scaled? (before ++ after) (-(after.length : ℤ))) := by
  obtain ⟨n, rfl⟩ := h.whole
  have hdigit {c : Char} (hc : c.isDigit) : (c != '.') = true ∧
      (!(c == 'e' || c == 'E')) = true := by
    simp [ne_of_isDigit hc (d := '.') rfl, ne_of_isDigit hc (d := 'e') rfl,
      ne_of_isDigit hc (d := 'E') rfl]
  have hmantissa : (Nat.toDigits 10 n ++ '.' :: after).takeWhile (fun c => !(c == 'e' || c == 'E'))
      = Nat.toDigits 10 n ++ '.' :: after := by
    rw [List.takeWhile_eq_self_iff]
    intro c hc
    rcases List.mem_append.mp hc with hc | hc
    · exact (hdigit (isDigit_toDigits n c hc)).2
    · rcases List.mem_cons.mp hc with rfl | hc
      · rfl
      · exact (hdigit (h.isDigit c hc)).2
  have hbefore : (Nat.toDigits 10 n ++ '.' :: after).takeWhile (· != '.') = Nat.toDigits 10 n := by
    rw [List.takeWhile_append_of_pos fun c hc => (hdigit (isDigit_toDigits n c hc)).1]
    exact List.append_nil _
  unfold unsigned?
  simp only [hmantissa, hbefore, decimal?_toDigits, List.drop_left, List.drop_length,
    digits?_of_isDigit h.isDigit hne]
  simp only [Option.bind_eq_bind, Option.bind_some]
  rw [if_neg (by simp), zero_sub]
  rfl

/-- The sign in front of digits. -/
theorem sign_signText (negative : Bool) {c : Char} (hc : c.isDigit) (cs : List Char) :
    sign ((signText negative).toList ++ c :: cs) = (negative, negative, c :: cs) := by
  cases negative with
  | true => rfl
  | false =>
      show sign (c :: cs) = _
      unfold sign
      split
      · next heq =>
          obtain ⟨rfl, -⟩ := List.cons.inj heq
          cases hc
      · next heq =>
          obtain ⟨rfl, -⟩ := List.cons.inj heq
          cases hc
      · rfl

/-- Digits with or without a point are read as decimal digits. -/
theorem integer?_decimal (negative : Bool) {c : Char} {cs : List Char} (hc : c.isDigit)
    (h : ∀ d ∈ c :: cs, d.isDigit ∨ d = '.') :
    integer? ((signText negative).toList ++ c :: cs)
      = (decimal? (c :: cs)).map fun ds => whole? negative (value 10 ds) := by
  have hbase {d : Char} {ds : List Char} (hd : d.isDigit = false) (hpoint : d ≠ '.') :
      c :: cs ≠ '0' :: d :: ds := by
    intro heq
    rcases h d (heq ▸ List.mem_cons_of_mem _ List.mem_cons_self) with hdigit | rfl
    · rw [hdigit] at hd
      cases hd
    · exact hpoint rfl
  unfold integer?
  rw [sign_signText negative hc]
  simp only
  split
  · next heq => exact absurd heq (hbase rfl (by decide))
  · next heq => exact absurd heq (hbase rfl (by decide))
  · next heq => exact absurd heq (hbase rfl (by decide))
  · rfl

section

variable (negative : Bool) {c : Char} {cs : List Char}

/-- What starts with a digit is no word. -/
theorem ne_word (hc : c.isDigit) {w : List Char}
    (hw : (w.head?.any fun d => d.isDigit || d == '-') = false) :
    ((signText negative).toList ++ c :: cs == w) = false := by
  rw [beq_eq_false_iff_ne]
  rintro rfl
  cases negative with
  | true => cases hw
  | false =>
      replace hw : (c.isDigit || c == '-') = false := hw
      rw [hc] at hw
      cases hw

theorem plainValue?_of_integer? (hc : c.isDigit) {v : Option Document}
    (h : integer? ((signText negative).toList ++ c :: cs) = some v) :
    plainValue? ((signText negative).toList ++ c :: cs) = v := by
  unfold plainValue?
  rw [ne_word negative hc rfl, ne_word negative hc rfl, h]
  rfl

theorem plainValue?_of_float? (hc : c.isDigit) {v : Option Document}
    (hinteger : integer? ((signText negative).toList ++ c :: cs) = none)
    (h : float? ((signText negative).toList ++ c :: cs) = some v) :
    plainValue? ((signText negative).toList ++ c :: cs) = v := by
  unfold plainValue?
  rw [ne_word negative hc rfl, ne_word negative hc rfl, hinteger]
  simp only [Bool.false_eq_true, if_false, h]

end

/-- **Plain numbers.** A finite number is read as it was written. -/
theorem plainValue?_plain {x : Float} (hx : x.isFinite) :
    plainValue? (Decimal.plain ".0" x).toList = some (.number x) := by
  obtain ⟨negative, before, after, y, htext, hne, hwrites, hrounds, hsign⟩ :=
    Decimal.plain_spec hx
  rw [htext]
  obtain ⟨n, rfl⟩ := hwrites.whole
  have hunsigned := unsigned?_point hwrites hne
  have hscaled : scaled? (Nat.toDigits 10 n ++ after) (-(after.length : ℤ)) = some x.abs := by
    refine scaled?_of_rounds ?_ (abs_spec hx).1 (abs_eq_zero hx) (hwrites.value ▸ hrounds)
    intro d hd
    exact (List.mem_append.mp hd).elim (isDigit_toDigits n d) (hwrites.isDigit d)
  have hdecimal : decimal? (Nat.toDigits 10 n ++ '.' :: after) = none := by
    rw [decimal?, digits?_append_point (isDigit_toDigits n)]
    rfl
  have hchars : ∀ d ∈ Nat.toDigits 10 n ++ '.' :: after, d.isDigit ∨ d = '.' := by
    intro d hd
    rcases List.mem_append.mp hd with hd | hd
    · exact .inl (isDigit_toDigits n d hd)
    · exact (List.mem_cons.mp hd).symm.imp_left (hwrites.isDigit d)
  obtain ⟨c, cs, hcons, hc⟩ := exists_toDigits_eq_cons n
  rw [hscaled, hcons, List.cons_append] at hunsigned
  rw [hcons, List.cons_append] at hdecimal hchars ⊢
  refine plainValue?_of_float? negative hc ?_ ?_
  · rw [integer?_decimal negative hc hchars, hdecimal]
    rfl
  · have hword {w : List Char} (hw : (w.head?.any fun d => d.isDigit || d == '-') = false) :
        (c :: (cs ++ '.' :: after) == w) = false := ne_word false hc hw
    unfold float?
    rw [sign_signText negative hc]
    simp only
    rw [hword rfl, hword rfl, hunsigned]
    simp only [Bool.false_eq_true, if_false, Option.map_some]
    rw [← hsign]

/-- Infinity is a word. -/
theorem plainValue?_infinity : plainValue? "inf".toList = some (.number (1.0 / 0.0)) := by
  rfl

/-- A whole number is read as it was written. -/
theorem plainValue?_toDigits {n : ℕ} (hn : n < UInt64.size) :
    plainValue? (Nat.toDigits 10 n) = some (.whole n) := by
  obtain ⟨c, cs, hcons, hc⟩ := exists_toDigits_eq_cons n
  have hdigits := isDigit_toDigits n
  have hdecimal := decimal?_toDigits n
  have hvalue := (value_eq hdigits).trans Nat.ofDigitChars_ten_toDigits
  rw [hcons] at hdigits hdecimal hvalue ⊢
  refine plainValue?_of_integer? false hc ?_
  rw [integer?_decimal false hc fun d hd => .inl (hdigits d hd), hdecimal, Option.map_some, hvalue]
  exact congrArg some (if_pos hn)

end

/-! ## Values -/

/-- At the end of a line, the text is read as the value. -/
def Shows (text : String) (v : Document) : Prop :=
  ∀ fuel depth rest, value? (fuel + 1) depth (skipBlank (' ' :: (text.toList ++ '\n' :: rest)))
    = some (v, '\n' :: rest)

theorem isAlphanum_bounds {c : Char} (hc : c.isAlphanum) : 48 ≤ c.toNat ∧ c.toNat ≤ 122 := by
  simp only [Char.isAlphanum, Char.isAlpha, Char.isUpper, Char.isLower, Char.isDigit,
    Bool.or_eq_true, Bool.and_eq_true, decide_eq_true_eq, UInt32.le_iff_toNat_le, ge_iff_le] at hc
  have hval : c.toNat = c.val.toNat := rfl
  have hupper : 'A'.val.toNat = 65 ∧ 'Z'.val.toNat = 90 := ⟨rfl, rfl⟩
  have hlower : 'a'.val.toNat = 97 ∧ 'z'.val.toNat = 122 := ⟨rfl, rfl⟩
  have hdigit : '0'.val.toNat = 48 ∧ '9'.val.toNat = 57 := ⟨rfl, rfl⟩
  omega

/-- A character of a plain value. -/
def isWordChar (c : Char) : Bool := c.isAlphanum || c == '-' || c == '.'

theorem isWordChar_of_isDigit {c : Char} (hc : c.isDigit) : isWordChar c := by
  simp [isWordChar, Char.isAlphanum, hc]

theorem ne_of_isWordChar {c d : Char} (hc : isWordChar c) (hd : isWordChar d = false) : c ≠ d := by
  rintro rfl
  rw [hc] at hd
  cases hd

/-- No character of a plain value ends it. -/
theorem isDelimiter_of_isWordChar {c : Char} (hc : isWordChar c) : isDelimiter c = false := by
  have hcontrol : isControl c = false := by
    simp only [isWordChar, Bool.or_eq_true, beq_iff_eq] at hc
    rcases hc with (hc | rfl) | rfl
    · have hbounds := isAlphanum_bounds hc
      rw [isControl, decide_eq_false (by omega), beq_eq_false_iff_ne.mpr (by omega)]
      rfl
    · decide
    · decide
  simp [isDelimiter, isBlank, hcontrol, ne_of_isWordChar hc (d := ' ') rfl,
    ne_of_isWordChar hc (d := '\t') rfl, ne_of_isWordChar hc (d := ',') rfl,
    ne_of_isWordChar hc (d := ']') rfl, ne_of_isWordChar hc (d := '\x7d') rfl,
    ne_of_isWordChar hc (d := '#') rfl]

theorem skipBlank_cons {c : Char} (hc : isBlank c = false) (cs : List Char) :
    skipBlank (c :: cs) = c :: cs :=
  List.dropWhile_cons_of_neg (by rw [hc]; exact Bool.false_ne_true)

/-- A plain value ends with its line. -/
theorem shows_of_plainValue? {w : String} {v : Document} (hne : w.toList ≠ [])
    (hw : ∀ c ∈ w.toList, isWordChar c) (h : plainValue? w.toList = some v) : Shows w v := by
  intro fuel depth rest
  have hplain : plain (w.toList ++ '\n' :: rest) = (w.toList, '\n' :: rest) := by
    have hchars : ∀ c ∈ w.toList, (!isDelimiter c) = true := fun c hc => by
      rw [isDelimiter_of_isWordChar (hw c hc)]
      rfl
    have htake : ('\n' :: rest).takeWhile (fun c => !isDelimiter c) = [] := rfl
    have hdrop : ('\n' :: rest).dropWhile (fun c => !isDelimiter c) = '\n' :: rest := rfl
    unfold plain
    simp only [List.takeWhile_append_of_pos hchars, List.dropWhile_append_of_pos hchars, htake,
      hdrop, List.append_nil]
    split
    · next heq => cases heq
    · rfl
  obtain ⟨c, cs, hcons⟩ := List.exists_cons_of_ne_nil hne
  have hc := hw c (hcons ▸ List.mem_cons_self)
  have hblank : isBlank c = false := by
    simp [isBlank, ne_of_isWordChar hc (d := ' ') rfl, ne_of_isWordChar hc (d := '\t') rfl]
  rw [hcons] at hplain h ⊢
  show value? (fuel + 1) depth (skipBlank (c :: (cs ++ '\n' :: rest))) = _
  rw [skipBlank_cons hblank]
  unfold value?
  split
  · next heq => exact absurd (List.cons.inj heq).1 (ne_of_isWordChar hc rfl)
  · next heq => exact absurd (List.cons.inj heq).1 (ne_of_isWordChar hc rfl)
  · have hquote : ¬ (((c :: (cs ++ '\n' :: rest)).head? == some '"'
        || (c :: (cs ++ '\n' :: rest)).head? == some '\'') = true) := by
      simp [ne_of_isWordChar hc (d := '"') rfl, ne_of_isWordChar hc (d := '\'') rfl]
    rw [if_neg hquote, ← List.cons_append, hplain]
    simp only [h, Option.map_some]

/-- A character that stands for itself in quotes. -/
def isTextChar (c : Char) : Bool := c != '"' && c != '\\' && 32 ≤ c.toNat && c.toNat != 127

/-- A text ends with its closing quote. -/
theorem basic?_append {s : List Char} (h : ∀ c ∈ s, isTextChar c) (rest : List Char) {fuel : ℕ}
    (hfuel : s.length < fuel) : basic? fuel (s ++ '"' :: rest) = some (s, rest) := by
  induction s generalizing fuel with
  | nil =>
      obtain ⟨fuel, rfl⟩ := Nat.exists_eq_add_of_lt hfuel
      rfl
  | cons c s ih =>
      obtain ⟨fuel, rfl⟩ := Nat.exists_eq_add_of_lt (Nat.zero_lt_of_lt hfuel)
      have hc := h c List.mem_cons_self
      simp only [isTextChar, Bool.and_eq_true, bne_iff_ne, decide_eq_true_eq] at hc
      obtain ⟨⟨⟨hquote, hslash⟩, hlow⟩, hdelete⟩ := hc
      have hcontrol : isControl c = false := by
        rw [isControl, decide_eq_false (not_lt.mpr hlow), beq_eq_false_iff_ne.mpr hdelete]
        rfl
      have hrest : basic? (0 + fuel) (s ++ '"' :: rest) = some (s, rest) := by
        refine ih (fun d hd => h d (List.mem_cons_of_mem c hd)) ?_
        rw [List.length_cons] at hfuel
        omega
      rw [List.cons_append]
      unfold basic?
      split
      · next heq => cases heq
      · next heq => exact absurd (List.cons.inj heq).1 hquote
      · next heq => exact absurd (List.cons.inj heq).1 hslash
      · next heq =>
          obtain ⟨rfl, rfl⟩ := List.cons.inj heq
          rw [hcontrol, hrest]
          rfl

/-- A character that stands for itself needs no escape. -/
theorem quotedChar_eq {c : Char} (hc : isTextChar c) : Json.quotedChar c = String.singleton c := by
  unfold Json.quotedChar
  split
  any_goals cases hc
  next =>
    simp only [isTextChar, Bool.and_eq_true, decide_eq_true_eq] at hc
    exact if_neg (not_lt.mpr hc.1.2)

theorem toList_quoted {s : String} (h : ∀ c ∈ s.toList, isTextChar c) :
    (Json.quoted s).toList = '"' :: (s.toList ++ ['"']) := by
  have hchars : s.toList.map Json.quotedChar = s.toList.map String.singleton :=
    List.map_congr_left fun c hc => quotedChar_eq (h c hc)
  rw [Json.quoted, hchars, String.toList_append, String.toList_append, String.toList_join,
    List.flatMap_map]
  simp only [String.toList_singleton, List.flatMap_singleton']
  rfl

theorem text?_append {s : List Char} (h : ∀ c ∈ s, isTextChar c) (rest : List Char) :
    text? ('"' :: (s ++ '"' :: '\n' :: rest)) = some (s, '\n' :: rest) := by
  unfold text?
  split
  · next heq =>
      -- Three quotes would start a text of several lines.
      cases s with
      | nil => cases heq
      | cons c s =>
          have hc := h c List.mem_cons_self
          rw [(List.cons.inj (List.cons.inj heq).2).1] at hc
          cases hc
  · next heq => cases heq
  · next heq =>
      rw [← (List.cons.inj heq).2]
      exact basic?_append h _ (by simp)
  · next heq => cases heq
  · next hnone _ => exact (hnone _ rfl).elim

/-- A text in quotes is read as it is. -/
theorem shows_text {s : String} (h : ∀ c ∈ s.toList, isTextChar c) :
    Shows (Json.quoted s) (.text s) := by
  intro fuel depth rest
  rw [toList_quoted h]
  show value? (fuel + 1) depth ('"' :: (s.toList ++ ['"'] ++ '\n' :: rest)) = _
  rw [List.append_assoc]
  show (text? ('"' :: (s.toList ++ '"' :: '\n' :: rest))).map _ = _
  rw [text?_append h]
  simp only [Option.map_some, String.ofList_toList]

/-! ## Keys -/

/-- A key that is written without quotes. -/
def isKey (k : String) : Bool := !k.isEmpty && k.toList.all isKeyChar

theorem ne_of_isKeyChar {c d : Char} (hc : isKeyChar c) (hd : isKeyChar d = false) : c ≠ d := by
  rintro rfl
  rw [hc] at hd
  cases hd

theorem isBlank_of_isKeyChar {c : Char} (hc : isKeyChar c) : isBlank c = false := by
  simp [isBlank, ne_of_isKeyChar hc (d := ' ') rfl, ne_of_isKeyChar hc (d := '\t') rfl]

/-- The characters of a key. -/
theorem exists_cons_of_isKey {k : String} (hk : isKey k) :
    ∃ c cs, k.toList = c :: cs ∧ ∀ d ∈ c :: cs, isKeyChar d := by
  rw [isKey, Bool.and_eq_true, Bool.not_eq_true', List.all_eq_true] at hk
  have hne : k.toList ≠ [] := fun hnil => by
    rw [String.toList_eq_nil_iff.mp hnil] at hk
    exact absurd hk.1 (by decide)
  obtain ⟨c, cs, hcons⟩ := List.exists_cons_of_ne_nil hne
  exact ⟨c, cs, hcons, hcons ▸ hk.2⟩

section

variable {k : String} {d : Char} {rest : List Char}

theorem skipBlank_append (hk : isKey k) (rest : List Char) :
    skipBlank (k.toList ++ rest) = k.toList ++ rest := by
  obtain ⟨c, cs, hcons, hchars⟩ := exists_cons_of_isKey hk
  rw [hcons, List.cons_append]
  exact skipBlank_cons (isBlank_of_isKeyChar (hchars c List.mem_cons_self)) _

/-- A key ends before a character that does not belong to keys. -/
theorem simpleKey?_append (hk : isKey k) (hd : isKeyChar d = false) (rest : List Char) :
    simpleKey? (k.toList ++ d :: rest) = some (k, d :: rest) := by
  obtain ⟨c, cs, hcons, hchars⟩ := exists_cons_of_isKey hk
  have hc := hchars c List.mem_cons_self
  have htake : (c :: cs ++ d :: rest).takeWhile isKeyChar = c :: cs := by
    rw [List.takeWhile_append_of_pos hchars, List.takeWhile_cons_of_neg (by rw [hd]; decide),
      List.append_nil]
  have hdrop : (c :: cs ++ d :: rest).dropWhile isKeyChar = d :: rest := by
    rw [List.dropWhile_append_of_pos hchars, List.dropWhile_cons_of_neg (by rw [hd]; decide)]
  rw [hcons]
  unfold simpleKey?
  split
  · next heq => exact absurd (List.cons.inj heq).1 (ne_of_isKeyChar hc rfl)
  · next heq => exact absurd (List.cons.inj heq).1 (ne_of_isKeyChar hc rfl)
  · rw [htake, hdrop, ← String.ofList_toList (s := k), hcons]
    rfl

/-- Keys with points between them start as the first of them does. -/
theorem exists_cons_of_path {path : List String} (hpath : ∀ k ∈ path, isKey k) (hne : path ≠ []) :
    ∃ c cs, (".".intercalate path).toList = c :: cs ∧ isKeyChar c := by
  obtain ⟨k, path, rfl⟩ := List.exists_cons_of_ne_nil hne
  obtain ⟨c, cs, hcons, hchars⟩ := exists_cons_of_isKey (hpath k List.mem_cons_self)
  have hc := hchars c List.mem_cons_self
  cases path with
  | nil => exact ⟨c, cs, by rw [String.intercalate_singleton, hcons], hc⟩
  | cons k' path =>
      exact ⟨c, _, by rw [String.intercalate_cons_cons, String.toList_append, String.toList_append,
        hcons, List.cons_append, List.cons_append], hc⟩

/-- Keys with points between them. -/
theorem keys?_append {path : List String} (hpath : ∀ k ∈ path, isKey k) (hne : path ≠ [])
    (d : Char) (rest : List Char) (hd : isKeyChar d = false)
    (hpoint : ∀ cs, skipBlank (d :: rest) ≠ '.' :: cs) (fuel : ℕ)
    (hfuel : (".".intercalate path).toList.length ≤ fuel) :
    keys? fuel ((".".intercalate path).toList ++ d :: rest)
      = some (path, skipBlank (d :: rest)) := by
  induction path generalizing fuel with
  | nil => exact absurd rfl hne
  | cons k path ih =>
      have hk := hpath k List.mem_cons_self
      obtain ⟨c, cs, hcons, -⟩ := exists_cons_of_isKey hk
      have hpos : 0 < k.toList.length := by
        rw [hcons]
        exact Nat.succ_pos _
      cases path with
      | nil =>
          rw [String.intercalate_singleton] at hfuel
          obtain ⟨fuel, rfl⟩ := Nat.exists_eq_add_of_lt (hpos.trans_le hfuel)
          unfold keys?
          rw [String.intercalate_singleton, skipBlank_append hk, simpleKey?_append hk hd]
          simp only [Option.bind_eq_bind, Option.bind_some]
          rfl
      | cons k' path =>
          rw [String.intercalate_cons_cons, String.toList_append, String.toList_append,
            List.length_append, List.length_append] at hfuel
          obtain ⟨fuel, rfl⟩ := Nat.exists_eq_add_of_lt (show 0 < fuel by omega)
          have hrest := ih (fun k hk => hpath k (List.mem_cons_of_mem _ hk)) (List.cons_ne_nil _ _)
            (0 + fuel) (by omega)
          unfold keys?
          rw [String.intercalate_cons_cons, String.toList_append, String.toList_append,
            List.append_assoc, List.append_assoc, skipBlank_append hk]
          change (simpleKey? (k.toList ++ '.' ::
            ((".".intercalate (k' :: path)).toList ++ d :: rest))).bind _ = _
          rw [simpleKey?_append hk rfl]
          show (keys? (0 + fuel) _).bind _ = _
          rw [hrest]
          rfl

end

/-! ## Statements -/

/-- The rest of a document makes the finished entries out of those that were read before. -/
def Gives (table : List String) (es : Entries) (cs : List Char) (final : Entries) : Prop :=
  ∀ fuel, cs.length < fuel → statements? fuel table es cs = some final

section

variable {table : List String} {es es' final : Entries} {cs : List Char}

theorem gives_nil : Gives table es [] es := by
  intro fuel hfuel
  obtain ⟨fuel, rfl⟩ := Nat.exists_eq_add_of_lt hfuel
  rfl

/-- An empty line says nothing. -/
theorem Gives.blank (h : Gives table es cs final) : Gives table es ('\n' :: cs) final := by
  intro fuel hfuel
  have hskip : skipLines ('\n' :: cs).length ('\n' :: cs) = skipLines cs.length cs := rfl
  obtain ⟨fuel, rfl⟩ := Nat.exists_eq_add_of_lt (Nat.zero_lt_of_lt hfuel)
  have hrest := h (0 + fuel + 1) (by rw [List.length_cons] at hfuel; omega)
  unfold statements? at hrest ⊢
  rw [hskip]
  exact hrest

/-- No line is skipped where a statement starts. -/
theorem skipLines_cons {c : Char} (hc : isBlank c = false) (hcomment : c ≠ '#') (hline : c ≠ '\n')
    (hreturn : c ≠ '\r') (fuel : ℕ) (cs : List Char) : skipLines fuel (c :: cs) = c :: cs := by
  cases fuel with
  | zero => rfl
  | succ fuel =>
      have hnewline : newline? (c :: cs) = none := by
        unfold newline?
        split
        · next heq => exact absurd (List.cons.inj heq).1 hline
        · next heq => exact absurd (List.cons.inj heq).1 hreturn
        · rfl
      have hhead : ((c :: cs).head? == some '#') = false := by simpa using hcomment
      unfold skipLines
      simp only [skipBlank_cons hc, hhead, Bool.false_eq_true, if_false, hnewline]

/-- A header opens a table. -/
theorem Gives.header {path : List String} (hpath : ∀ k ∈ path, isKey k) (hne : path ≠ [])
    (hopen : openTable path es = some es') (h : Gives path es' cs final) :
    Gives table es ('[' :: ((".".intercalate path).toList ++ ']' :: '\n' :: cs)) final := by
  intro fuel hfuel
  obtain ⟨fuel, rfl⟩ := Nat.exists_eq_add_of_lt (Nat.zero_lt_of_lt hfuel)
  have hrest := h (0 + fuel) (by
    simp only [List.length_cons, List.length_append] at hfuel
    omega)
  have hkeys := keys?_append hpath hne ']' ('\n' :: cs) rfl
    (by rw [skipBlank_cons rfl]; exact nofun)
    (((".".intercalate path).toList ++ ']' :: '\n' :: cs).length + 1)
    (by rw [List.length_append]; omega)
  obtain ⟨c, cs', hcons, hc⟩ := exists_cons_of_path hpath hne
  unfold statements?
  rw [skipLines_cons rfl (by decide) (by decide) (by decide)]
  split
  · next heq => cases heq
  · next heq =>
      -- Two brackets would start a list of tables.
      rw [hcons] at heq
      exact absurd (List.cons.inj (List.cons.inj heq).2).1 (ne_of_isKeyChar hc rfl)
  · next heq =>
      rw [← (List.cons.inj heq).2, hkeys, skipBlank_cons rfl]
      simp only [Option.bind_eq_bind, Option.bind_some, hopen]
      exact hrest
  · next hopens => exact (hopens _ rfl).elim

/-- A key with a value is assigned. -/
theorem Gives.key {key text : String} {v : Document} {o : Opening} (hkey : isKey key)
    (htext : Shows text v)
    (hassign : change false (assign [key] v) table .opened es = some (o, es'))
    (h : Gives table es' cs final) :
    Gives table es (key.toList ++ ' ' :: '=' :: ' ' :: (text.toList ++ '\n' :: cs)) final := by
  intro fuel hfuel
  obtain ⟨fuel, rfl⟩ := Nat.exists_eq_add_of_lt (Nat.zero_lt_of_lt hfuel)
  have hrest := h (0 + fuel) (by
    simp only [List.length_cons, List.length_append] at hfuel
    omega)
  have hpath : ∀ k ∈ [key], isKey k := by simpa using hkey
  have hkeys := keys?_append hpath (List.cons_ne_nil _ _) ' '
    ('=' :: ' ' :: (text.toList ++ '\n' :: cs)) rfl nofun
    ((key.toList ++ ' ' :: '=' :: ' ' :: (text.toList ++ '\n' :: cs)).length + 1)
    (by rw [String.intercalate_singleton, List.length_append]; omega)
  rw [String.intercalate_singleton] at hkeys
  obtain ⟨c, cs', hcons, hchars⟩ := exists_cons_of_isKey hkey
  have hc := hchars c List.mem_cons_self
  have hskip (fuel : ℕ) (rest : List Char) : skipLines fuel (key.toList ++ rest)
      = key.toList ++ rest := by
    rw [hcons]
    exact skipLines_cons (isBlank_of_isKeyChar hc) (ne_of_isKeyChar hc rfl)
      (ne_of_isKeyChar hc rfl) (ne_of_isKeyChar hc rfl) fuel _
  unfold statements?
  rw [hskip]
  split
  · next heq =>
      rw [hcons] at heq
      cases heq
  · next heq =>
      rw [hcons] at heq
      exact absurd (List.cons.inj heq).1 (ne_of_isKeyChar hc rfl)
  · next heq =>
      rw [hcons] at heq
      exact absurd (List.cons.inj heq).1 (ne_of_isKeyChar hc rfl)
  · have hvalue := htext (2 * (' ' :: (text.toList ++ '\n' :: cs)).length + 1) maxDepth cs
    have hline : endOfLine? ('\n' :: cs) = some cs := rfl
    rw [hkeys]
    change (value? _ maxDepth _).bind _ = _
    rw [hvalue]
    simp only [Option.bind_eq_bind, Option.bind_some, hassign, hline]
    exact hrest

end

end RideHud.Toml
