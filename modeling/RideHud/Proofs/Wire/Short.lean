import RideHud.Proofs.Wire.Codec

/-!
# Bytes that are no whole frame

A frame is read word by word in the order of the layout, so bytes that run out do so inside a word,
and the error names the part to which that word belongs (`decode_tells_end`). Reading a list of words
fails where the bytes fill no more of them, whichever it is (`mapM_word_of_short`); a sample is made
of the words of the layout and of nothing else (`sample_eq_bind`).
-/

namespace RideHud.Wire

/-! ## Where parts lie -/

namespace Part

/-- The place of the first byte of a part: it lies behind the words of all parts before it. -/
def start (p : Part) : ℕ := 8 * ((layout.takeWhile (· ≠ p)).map words).sum

/-- A byte of a frame belongs to a part. -/
def Covers (p : Part) (i : ℕ) : Prop := p.start ≤ i ∧ i < p.start + 8 * p.words

instance (p : Part) (i : ℕ) : Decidable (p.Covers i) := inferInstanceAs (Decidable (_ ∧ _))

end Part

/-- The part of each word of a frame. -/
def wordParts : List Part := layout.flatMap fun p => List.replicate p.words p

theorem mem_layout (p : Part) : p ∈ layout := by cases p <;> decide

/-- A word begins in the part to which it belongs. -/
theorem covers_iff {k : ℕ} (hk : k < 17) (p : Part) :
    p.Covers (8 * k) ↔ wordParts[k]? = some p := by
  have hall : ∀ p ∈ layout, ∀ k < 17, p.Covers (8 * k) ↔ wordParts[k]? = some p := by decide
  exact hall p (mem_layout p) k hk

/-! ## Reading words -/

variable {bs : List UInt8}

/-- Fewer bytes than a word has are no word. -/
theorem word_of_short (h : bs.length < 8) (p : Part) (o : ℕ) :
    word p ⟨o, bs⟩ = .error ⟨o, p, bs.length⟩ := if_pos h

/-- Reading words goes on behind the first one. -/
theorem mapM_word_cons (h : 8 ≤ bs.length) (p : Part) (parts : List Part) (o : ℕ) :
    ((p :: parts).mapM word) ⟨o, bs⟩
      = ((parts.mapM word) ⟨o + 8, bs.drop 8⟩).map fun r =>
        (wordOfBytes (bs.take 8) :: r.1, r.2) := by
  rw [List.mapM_cons]
  show (word p ⟨o, bs⟩ >>= _) = _
  rw [word, if_neg (Nat.not_lt.mpr h)]
  rfl

/-- **Words are read until the bytes do not fill one.** It is the one behind all that are filled. -/
theorem mapM_word_of_short {parts : List Part} (h : bs.length < 8 * parts.length) (o : ℕ) :
    ∃ p, parts[bs.length / 8]? = some p ∧
      (parts.mapM word) ⟨o, bs⟩ = .error ⟨o + 8 * (bs.length / 8), p, bs.length % 8⟩ := by
  induction parts generalizing bs o with
  | nil => exact absurd h (Nat.not_lt_zero _)
  | cons p parts ih =>
      rcases Nat.lt_or_ge bs.length 8 with hlt | hge
      · refine ⟨p, ?_, ?_⟩
        · rw [Nat.div_eq_of_lt hlt]
          rfl
        · rw [List.mapM_cons, Nat.div_eq_of_lt hlt, Nat.mod_eq_of_lt hlt]
          show (word p ⟨o, bs⟩ >>= _) = _
          rw [word_of_short hlt]
          rfl
      · have hlen : (bs.drop 8).length = bs.length - 8 := List.length_drop
        rw [List.length_cons] at h
        have hrest : (bs.drop 8).length < 8 * parts.length := by omega
        obtain ⟨q, hq, hfails⟩ := ih hrest (o + 8)
        refine ⟨q, ?_, ?_⟩
        · rw [hlen] at hq
          rw [show bs.length / 8 = (bs.length - 8) / 8 + 1 by omega]
          exact hq
        · rw [mapM_word_cons hge, hfails, hlen]
          show Except.error _ = Except.error _
          congr 2 <;> omega

/-! ## Reading frames -/

/-- The sample that the words of a frame make, without the spare time. -/
def sampleOfWords (ws : List UInt64) : RawSample :=
  let w (i : ℕ) := ws.getD i 0
  ⟨w 0, ⟨w 1, w 2, w 3⟩, ⟨w 4, w 5, w 6⟩, ⟨w 7, w 8, w 9⟩, w 11, w 12, ⟨w 13, w 14, w 15, w 16⟩⟩

/-- A sample is made of the words of the layout, read one after the other. -/
theorem sample_eq_bind : sample = wordParts.mapM word >>= fun ws => pure (sampleOfWords ws) := by
  simp only [wordParts, layout, Part.words, List.flatMap_cons, List.flatMap_nil, List.replicate,
    List.cons_append, List.nil_append, List.mapM_cons, List.mapM_nil, bind_assoc, pure_bind]
  simp only [sample, vec, bind_assoc, pure_bind]
  rfl

/-- Fewer bytes than a frame has are not decoded. -/
theorem decode_of_short (h : bs.length < frameSize) :
    ∃ p, wordParts[bs.length / 8]? = some p ∧
      decode bs = .error ⟨8 * (bs.length / 8), p, bs.length % 8⟩ := by
  have hwords : bs.length < 8 * wordParts.length := h
  obtain ⟨p, hp, hfails⟩ := mapM_word_of_short hwords 0
  refine ⟨p, hp, ?_⟩
  rw [Nat.zero_add] at hfails
  rw [decode, sample_eq_bind]
  show Except.map _ ((wordParts.mapM word) ⟨0, bs⟩ >>= _) = _
  rw [hfails]
  rfl

/-- Of more bytes than a frame has, only the first ones are decoded. -/
theorem decode_take (h : frameSize ≤ bs.length) : decode bs = decode (bs.take frameSize) := by
  obtain ⟨s, spare, hs⟩ := exists_eq_encode (bs.take frameSize) (List.length_take_of_le h)
  conv_lhs => rw [← List.take_append_drop frameSize bs]
  rw [hs, decode_encode_append, decode_encode]

/-- **Bytes are decoded if they are a whole frame, and else the error tells where they end.** Some
bytes are decoded if and only if they are 136 or more, and then the first 136 of them decide on the
sample. Of fewer bytes, the error tells how many of them fill words, how many are left, and the one
part of the layout to which the byte behind the filled words belongs; so does its message. -/
theorem decode_tells_end (bs : List UInt8) :
    ((∃ s, decode bs = .ok s) ↔ 136 ≤ bs.length) ∧
    (136 ≤ bs.length → decode bs = decode (bs.take 136)) ∧
    (bs.length < 136 → ∃ e, decode bs = .error e ∧ e.offset = 8 * (bs.length / 8) ∧
      (∀ p : Part, p.Covers e.offset ↔ p = e.part) ∧
      e.message =
        s!"malformed frame at byte {e.offset}: field '{e.part.name}' needs 8 bytes, {e.left} left" ∧
      e.left = bs.length % 8) := by
  refine ⟨⟨?_, exists_decode_eq_ok bs⟩, decode_take, fun hshort => ?_⟩
  · rintro ⟨s, hs⟩
    by_contra hshort
    obtain ⟨p, -, hfails⟩ := decode_of_short (Nat.lt_of_not_le hshort)
    rw [hfails] at hs
    cases hs
  · obtain ⟨p, hp, hfails⟩ := decode_of_short hshort
    refine ⟨_, hfails, rfl, fun q => ?_, rfl, rfl⟩
    rw [covers_iff (by omega), hp, Option.some.injEq, eq_comm]

/-- A hundred bytes of silence end in the pressure, four bytes behind its beginning; of a hundred and
forty, the last four are not looked at. -/
theorem decode_of_silence :
    (List.replicate 100 (0 : UInt8)).length < 136 ∧
      (∃ e, decode (List.replicate 100 0) = .error e ∧
        e.offset = 96 ∧ e.part = .pressure ∧ e.left = 4 ∧
        e.message = "malformed frame at byte 96: field 'pressure' needs 8 bytes, 4 left") ∧
      136 ≤ (List.replicate 140 (0 : UInt8)).length ∧
      decode (List.replicate 140 0) = decode (List.replicate 136 0) := by
  have hshort : (List.replicate 100 (0 : UInt8)).length < 136 := by decide
  have hlong : 136 ≤ (List.replicate 140 (0 : UInt8)).length := by decide
  refine ⟨hshort, ?_, hlong, (decode_tells_end _).2.1 hlong⟩
  obtain ⟨e, hfails, hoffset, hcovers, hmessage, hleft⟩ := (decode_tells_end _).2.2 hshort
  have hoffset : e.offset = 96 := hoffset
  have hleft : e.left = 4 := hleft
  have hpart : e.part = .pressure := ((hcovers .pressure).mp (by rw [hoffset]; decide)).symm
  rw [hoffset, hpart, hleft] at hmessage
  exact ⟨e, hfails, hoffset, hpart, hleft, hmessage⟩

end RideHud.Wire
