import RideHud.Proofs.Text.Numeral

/-!
# Tame documents

A document is tame if no number in it is infinite. Every JSON document is (`tame_ofJson`).
-/

namespace RideHud.Document

open Binary64

/-! ## Parts -/

/-- `v` stands somewhere in a document. -/
inductive Part (v : Document) : Document → Prop
  | whole : Part v v
  | item {items : List Document} {w : Document} : w ∈ items → Part v w → Part v (.list items)
  | entry {entries : List (String × Document)} {k : String} {w : Document} :
      (k, w) ∈ entries → Part v w → Part v (.table entries)

/-- A plain value is no number, or a number that is not infinite. -/
def IsTame : Document → Prop
  | .whole n => n.natAbs < UInt64.size
  | .number x => x.isInf = false
  | _ => True

/-- No number in the document is infinite. -/
def Tame (d : Document) : Prop := ∀ v, Part v d → v.IsTame

theorem Tame.part {v d : Document} (h : d.Tame) (hpart : Part v d) : v.Tame := by
  intro w hw
  induction hpart with
  | whole => exact h w hw
  | item hmem _ ih => exact ih fun u hu => h u (.item hmem hu)
  | entry hmem _ ih => exact ih fun u hu => h u (.entry hmem hu)

section

variable {n : ℤ} {x : Float} {s : String} {b : Bool} {items : List Document}
  {entries : List (String × Document)}

theorem tame_null : Tame .null := by rintro v ⟨⟩; trivial

theorem tame_other : Tame .other := by rintro v ⟨⟩; trivial

theorem tame_bool : Tame (.bool b) := by rintro v ⟨⟩; trivial

theorem tame_text : Tame (.text s) := by rintro v ⟨⟩; trivial

theorem tame_whole (h : n.natAbs < UInt64.size) : Tame (.whole n) := by rintro v ⟨⟩; exact h

theorem tame_number (h : x.isInf = false) : Tame (.number x) := by rintro v ⟨⟩; exact h

theorem tame_list (h : ∀ v ∈ items, v.Tame) : Tame (.list items) := by
  rintro v (_ | ⟨hmem, hpart⟩)
  · trivial
  · exact h _ hmem v hpart

theorem tame_table (h : ∀ k v, (k, v) ∈ entries → v.Tame) : Tame (.table entries) := by
  rintro v (_ | _ | ⟨hmem, hpart⟩)
  · trivial
  · exact h _ _ hmem v hpart

end

/-! ## JSON -/

theorem tame_ofNumeral (n : Json.Numeral) : (ofNumeral n).Tame := by
  have hfallback : ((n.toFloat?.map Document.number).getD .other).Tame := by
    cases hx : n.toFloat? with
    | none => exact tame_other
    | some x => exact tame_number (isInf_of_isFinite (Json.Numeral.isFinite_of_toFloat? hx))
  have hlt := Json.Numeral.takeDigits_lt n.whole (n := 0) (by decide)
  simp only [ofNumeral]
  split
  · split
    · next m hm =>
        rw [hm] at hlt
        split
        · exact tame_whole (by simpa using hlt)
        · split
          · exact tame_whole (by simpa using hlt)
          · exact hfallback
    · exact hfallback
  · exact hfallback

mutual

/-- **JSON.** No number in a JSON document is infinite. -/
theorem tame_ofJson : ∀ j : Json, (ofJson j).Tame
  | .null => tame_null
  | .bool _ => tame_bool
  | .number n => tame_ofNumeral n
  | .text none => tame_other
  | .text (some _) => tame_text
  | .array items => tame_list (tame_ofJsonItems items)
  | .object entries => tame_table (tame_ofJsonEntries entries)

theorem tame_ofJsonItems : ∀ (items : List Json), ∀ v ∈ ofJsonItems items, v.Tame
  | [], v, hmem => nomatch hmem
  | j :: items, v, hmem => by
      rcases List.mem_cons.mp hmem with rfl | hmem
      · exact tame_ofJson j
      · exact tame_ofJsonItems items v hmem

theorem tame_ofJsonEntries :
    ∀ (entries : List (String × Json)) (k : String) (v : Document),
      (k, v) ∈ ofJsonEntries entries → v.Tame
  | [], k, v, hmem => nomatch hmem
  | (k', j) :: entries, k, v, hmem => by
      rcases List.mem_cons.mp hmem with heq | hmem
      · obtain ⟨rfl, rfl⟩ := Prod.mk.inj heq
        exact tame_ofJson j
      · exact tame_ofJsonEntries entries k v hmem

end

end RideHud.Document
