import Mathlib.Algebra.Order.Field.Basic
import RideHud.Proofs.Draw.Trail
import RideHud.Proofs.Exact

/-!
# Texts one behind the other

A text adds the closed rectangles of its cells to the path and leaves the current point where the
next text may go on. Two texts in a row give what their concatenation gives if neither of them is
empty, and, unless the size is zero, only then (`text_append_iff`): every character takes six columns
of cells, but a text without characters takes one (`pitch`).

What is drawn is told without rounding on a `Trail`, and a raster canvas does the same with the
points as it maps them (`Raster.text_eq_follow`).
-/

namespace RideHud

open scoped Scalar

/-! ## Drawing -/

/-- Add the outlines of a text that stands on the current point. -/
def Trail.text {α : Type} [Scalar α] (t : Trail α) (text : String) (size : α) : Trail α :=
  ((Glyph.boxes t.origin text size).foldl rectangle t).moveTo (Glyph.following t.origin text size)

namespace Raster

variable (r : Raster) (t : Trail Float)

/-- **A canvas draws texts as a trail does.** -/
theorem text_follow (s : String) (size : Float) :
    (r.follow t).text s size = r.follow (t.text s size) := by
  have horigin : (r.follow t).current.getD (0, 0) = t.origin := rfl
  unfold text Trail.text
  dsimp only
  rw [horigin, List.foldl_hom r.follow fun t (b : Glyph.Box Float) => rectangle_follow r t b,
    moveTo_follow]

/-- What a text adds to the path of a canvas is what it adds to a trail, as the transform maps it. -/
theorem text_eq_follow (s : String) (size : Float) :
    r.text s size = r.follow (Trail.text ⟨[], r.current⟩ s size) := by
  rw [← text_follow, follow_current]

end Raster

/-! ## Cells -/

namespace Glyph

/-- The cells of a text that begins some columns further on. -/
theorem cellsFrom_eq_map (column : ℕ) (cs : List Char) :
    cellsFrom column cs = (cellsFrom 0 cs).map fun cell => (column + cell.1, cell.2) := by
  induction cs generalizing column with
  | nil => rfl
  | cons c cs ih =>
      rw [cellsFrom, cellsFrom, ih (column + advance), ih (0 + advance), List.map_append,
        List.map_map, List.map_map]
      refine congrArg₂ (· ++ ·) (List.map_congr_left fun cell _ => ?_)
        (List.map_congr_left fun cell _ => ?_)
      · dsimp only [Function.comp_apply]
        rw [Nat.zero_add]
      · dsimp only [Function.comp_apply]
        rw [Nat.zero_add, Nat.add_assoc]

/-- The cells of a text behind another one come behind as many columns as that one's characters
take. -/
theorem cellsFrom_append (column : ℕ) (cs ds : List Char) :
    cellsFrom column (cs ++ ds)
      = cellsFrom column cs ++ cellsFrom (column + cs.length * advance) ds := by
  induction cs generalizing column with
  | nil => rw [List.nil_append, cellsFrom, List.nil_append, List.length_nil, Nat.zero_mul]; rfl
  | cons c cs ih =>
      rw [List.cons_append, cellsFrom, cellsFrom, ih, List.append_assoc, List.length_cons,
        Nat.add_mul, Nat.one_mul, Nat.add_comm (cs.length * advance), Nat.add_assoc]

theorem cells_append (a b : String) :
    cells (a ++ b) = cells a ++ (cells b).map fun cell => (a.length * advance + cell.1, cell.2) := by
  rw [cells, String.toList_append, cellsFrom_append, cellsFrom_eq_map (0 + _), Nat.zero_add,
    String.length_toList]
  rfl

/-- The number of columns by which a text moves the current point. -/
def pitch (text : String) : ℕ := if text = "" then 1 else text.length * advance

theorem pitch_of_ne {text : String} (h : text ≠ "") : pitch text = text.length * advance := if_neg h

/-- The columns of two texts are those of their concatenation unless one of them is empty. -/
theorem pitch_append_iff (a b : String) : pitch a + pitch b = pitch (a ++ b) ↔ a ≠ "" ∧ b ≠ "" := by
  by_cases ha : a = ""
  · rw [ha, String.empty_append, pitch, if_pos rfl]
    exact iff_of_false (by omega) fun h => h.1 rfl
  by_cases hb : b = ""
  · rw [hb, String.append_empty, pitch, pitch, if_pos rfl]
    exact iff_of_false (by omega) fun h => h.2 rfl
  have hab : a ++ b ≠ "" := fun h => ha (String.append_eq_empty_iff.mp h).1
  rw [pitch_of_ne ha, pitch_of_ne hb, pitch_of_ne hab, String.length_append, Nat.add_mul]
  exact iff_of_true rfl ⟨ha, hb⟩

open scoped RideHud.Exact

variable {K : Type} [DivisionRing K] [LinearOrder K]

/-- A text moves the current point along its line. -/
theorem following_eq (origin : K × K) (text : String) (size : K) :
    following origin text size = (origin.1 + pitch text * cellSide size, origin.2) := by
  unfold following extents pitch
  by_cases h : text = ""
  · rw [if_pos h, if_pos (String.length_eq_zero_iff.mpr h), Exact.zero_eq, zero_add, Nat.cast_one,
      one_mul]
  · have hlen : 0 < text.length := Nat.pos_of_ne_zero (mt String.length_eq_zero_iff.mp h)
    have hpitch : text.length * advance - 1 + 1 = text.length * advance :=
      Nat.sub_add_cancel (Nat.mul_pos hlen (by decide))
    rw [if_neg h, if_neg hlen.ne', ← hpitch, Nat.add_sub_cancel, Nat.cast_succ, add_mul, one_mul]

/-- The boxes of a text behind another one are those of a text that stands where the other one's
next character would. -/
theorem boxes_append (origin : K × K) (a b : String) (size : K) :
    boxes origin (a ++ b) size = boxes origin a size ++
      boxes (origin.1 + (a.length * advance : ℕ) * cellSide size, origin.2) b size := by
  unfold boxes
  dsimp only
  rw [cells_append, List.map_append, List.map_map]
  refine congrArg₂ (· ++ ·) rfl (List.map_congr_left fun cell _ => ?_)
  dsimp only [Function.comp_apply]
  rw [Nat.cast_add, add_mul, add_assoc]

/-- Unless it is empty and has a size, a text leaves off where its next character would stand. -/
theorem following_of_ne {size : K} {text : String} (h : size = 0 ∨ text ≠ "") (origin : K × K) :
    following origin text size
      = (origin.1 + (text.length * advance : ℕ) * cellSide size, origin.2) := by
  rw [following_eq]
  rcases h with rfl | hne
  · rw [cellSide, zero_div, mul_zero, mul_zero]
  · rw [pitch_of_ne hne]

/-- Two texts go as far as their concatenation if the size is zero or neither is empty. -/
theorem following_append_iff [IsStrictOrderedRing K] (origin : K × K) (a b : String) (size : K) :
    following (following origin a size) b size = following origin (a ++ b) size
      ↔ size = 0 ∨ a ≠ "" ∧ b ≠ "" := by
  have hside : cellSide size = 0 ↔ size = 0 := by
    rw [cellSide, div_eq_zero_iff, or_iff_left (Nat.cast_ne_zero.mpr (by decide))]
  rw [following_eq, following_eq, following_eq, Prod.mk.injEq, and_iff_left rfl, add_assoc,
    add_right_inj, ← add_mul, mul_eq_mul_right_iff, hside, ← Nat.cast_add, Nat.cast_inj,
    pitch_append_iff, or_comm]

end Glyph

/-! ## Texts -/

namespace Trail

open scoped RideHud.Exact

variable {K : Type} [DivisionRing K] [LinearOrder K] (t : Trail K)

/-- What a text adds to the path. -/
theorem closed_text (s : String) (size : K) :
    (t.text s size).closed
      = t.closed ++ (Glyph.boxes t.origin s size).map Glyph.Box.corners := by
  rw [text, closed_moveTo, closed_foldl_rectangle]

/-- The second of two texts goes on behind the first one if that one has characters. -/
theorem closed_text_text {a : String} {size : K} (h : size = 0 ∨ a ≠ "") (b : String) :
    ((t.text a size).text b size).closed = (t.text (a ++ b) size).closed := by
  have horigin : (t.text a size).origin = Glyph.following t.origin a size := rfl
  rw [closed_text, closed_text, closed_text, horigin, Glyph.following_of_ne h, Glyph.boxes_append,
    List.map_append, List.append_assoc]

theorem current_text (s : String) (size : K) :
    (t.text s size).current = some (Glyph.following t.origin s size) := rfl

/-- A path without steps, with the current point in the lower left corner of a glyph. -/
def corner : Trail ℚ := ⟨[], some (0, 7)⟩

/-- **Texts advance by their characters, and empty ones by a column.** For all texts, every size and
every path with or without a current point: drawing one text and then the other adds the same closed
rectangles in the same order as drawing their concatenation, and leaves the same current point, if
and only if the size is zero or neither text is empty. -/
theorem text_append_iff [IsStrictOrderedRing K] (a b : String) (size : K) :
    ((t.text a size).text b size).closed = (t.text (a ++ b) size).closed ∧
        ((t.text a size).text b size).current = (t.text (a ++ b) size).current
      ↔ size = 0 ∨ a ≠ "" ∧ b ≠ "" := by
  have horigin : (t.text a size).origin = Glyph.following t.origin a size := rfl
  rw [current_text, current_text, horigin, Option.some.injEq, Glyph.following_append_iff]
  exact and_iff_right_of_imp fun h => t.closed_text_text (h.imp_right And.left) b

/-- A number in two pieces is the number in one: six columns for each of its characters. -/
theorem text_of_pieces :
    ((corner.text "-1" 7).text ".5" 7).closed = (corner.text ("-1" ++ ".5") 7).closed ∧
      ((corner.text "-1" 7).text ".5" 7).current = some (24, 7) := by
  have hsame := (corner.text_append_iff "-1" ".5" 7).mpr (.inr ⟨by decide, by decide⟩)
  exact ⟨hsame.1, hsame.2.trans (by decide +kernel)⟩

/-- **An empty text is not nothing.** In front of another one it moves its rectangles and the current
point by a column. -/
theorem text_of_nothing :
    ((corner.text "" 7).text "." 7).closed ≠ (corner.text ("" ++ ".") 7).closed ∧
      ((corner.text "" 7).text "." 7).current = some (7, 7) ∧
      (corner.text ("" ++ ".") 7).current = some (6, 7) := by
  decide +kernel

end Trail

end RideHud
