import Mathlib.Data.Set.Prod
import Mathlib.Order.Interval.Set.Basic
import RideHud.Proofs.Draw.Lettering

/-!
# Texts inside their extents

The cells of a glyph lie in its columns and rows, so the glyphs of a text do not share cells, and
its last cell ends where the blank column behind the last glyph begins (`bounds_of_mem_cellsFrom`).
The extents of a text count the same columns, whatever its characters are. With exact arithmetic,
nothing of a text is therefore drawn outside of the box that its extents measure
(`text_staysInside`).
-/

namespace RideHud

namespace Glyph

/-! ## Cells -/

variable {ch : Char} {cs : List Char} {column : ℕ} {cell : ℕ × ℕ}

/-- The cells of a glyph lie in its columns and rows. -/
theorem lt_of_mem_glyphCells (h : cell ∈ glyphCells ch) : cell.1 < columns ∧ cell.2 < rowCount := by
  obtain ⟨row, hrow, hcell⟩ := List.mem_flatMap.mp h
  obtain ⟨column, hcolumn, rfl⟩ := List.mem_map.mp hcell
  exact ⟨List.mem_range.mp (List.mem_of_mem_filter hcolumn), List.mem_range.mp hrow⟩

/-- A glyph has each of its cells once. -/
theorem nodup_glyphCells (ch : Char) : (glyphCells ch).Nodup := by
  refine List.nodup_flatMap.mpr ⟨fun row _ => ?_, List.nodup_range.imp fun {row row'} hne => ?_⟩
  · exact (List.nodup_range.filter _).map fun _ _ h => congrArg Prod.fst h
  · -- The cells of a row tell which one it is.
    refine List.disjoint_left.mpr fun cell hcell hcell' => hne ?_
    obtain ⟨_, -, rfl⟩ := List.mem_map.mp hcell
    obtain ⟨_, -, h⟩ := List.mem_map.mp hcell'
    exact (congrArg Prod.snd h).symm

/-- The cells of a text lie in the columns that its characters take, less the last one. -/
theorem bounds_of_mem_cellsFrom (h : cell ∈ cellsFrom column cs) :
    column ≤ cell.1 ∧ cell.1 + 1 < column + cs.length * advance ∧ cell.2 < rowCount := by
  induction cs generalizing column with
  | nil => cases h
  | cons ch cs ih =>
      rw [List.length_cons, Nat.add_mul, Nat.one_mul]
      rcases List.mem_append.mp h with hfirst | hrest
      · obtain ⟨inner, hinner, rfl⟩ := List.mem_map.mp hfirst
        obtain ⟨hcolumn, hrow⟩ := lt_of_mem_glyphCells hinner
        have hblank : advance = columns + 1 := rfl
        exact ⟨by omega, by omega, hrow⟩
      · obtain ⟨hfrom, hto, hrow⟩ := ih hrest
        exact ⟨by omega, by omega, hrow⟩

/-- **A text has each of its cells once**: the glyphs behind the first one begin beyond it. -/
theorem nodup_cellsFrom (column : ℕ) (cs : List Char) : (cellsFrom column cs).Nodup := by
  induction cs generalizing column with
  | nil => exact List.nodup_nil
  | cons ch cs ih =>
      have hshift : Function.Injective fun cell : ℕ × ℕ => (column + cell.1, cell.2) :=
        fun a b h => Prod.ext (Nat.add_left_cancel (congrArg Prod.fst h)) (congrArg Prod.snd h :)
      refine List.Nodup.append ((nodup_glyphCells ch).map hshift) (ih (column + advance)) ?_
      refine List.disjoint_left.mpr fun cell hfirst hrest => ?_
      obtain ⟨inner, hinner, rfl⟩ := List.mem_map.mp hfirst
      have hinside : inner.1 < columns := (lt_of_mem_glyphCells hinner).1
      have hbeyond : column + advance ≤ column + inner.1 := (bounds_of_mem_cellsFrom hrest).1
      have hblank : advance = columns + 1 := rfl
      omega

/-! ## Boxes -/

/-- The points of a box, those of its edges among them. -/
def Box.region {K : Type} [DivisionRing K] [LinearOrder K] (b : Box K) : Set (K × K) :=
  Set.Icc b.x (b.x + b.width) ×ˢ Set.Icc b.y (b.y + b.height)

open scoped RideHud.Exact

variable {K : Type} [DivisionRing K] [LinearOrder K]

/-- A text that has a cell is as wide as its columns, less the blank one behind it. -/
theorem extents_of_mem {text : String} (h : cell ∈ cells text) (size : K) :
    extents text size = ((text.length * advance - 1 : ℕ) * cellSide size, size) := by
  have hlen : text.length ≠ 0 := by
    intro hzero
    have hbounds := bounds_of_mem_cellsFrom h
    rw [String.length_toList, hzero] at hbounds
    omega
  exact if_neg hlen

variable [IsStrictOrderedRing K]

/-- The rows of a glyph make up its height. -/
theorem rowCount_mul_cellSide (size : K) : rowCount * cellSide size = size := by
  have hrows : (rowCount : K) ≠ 0 := Nat.cast_ne_zero.mpr (by decide)
  rw [cellSide, Nat.cast_comm, div_mul_cancel₀ size hrows]

theorem cellSide_nonneg {size : K} (h : 0 ≤ size) : 0 ≤ cellSide size :=
  div_nonneg h (Nat.cast_nonneg _)

/-- The far edge of a cell does not pass an edge that is more cells away. -/
theorem far_edge_le {side : K} (h : 0 ≤ side) (start : K) {i n : ℕ} (hlt : i < n) :
    start + i * side + side ≤ start + n * side := by
  have hle : ((i + 1 : ℕ) : K) ≤ n := Nat.cast_le.mpr hlt
  calc start + i * side + side
      = start + (i + 1 : ℕ) * side := by rw [Nat.cast_succ, add_mul, one_mul, add_assoc]
    _ ≤ start + n * side := add_le_add_right (mul_le_mul_of_nonneg_right hle h) start

/-- **The box of a cell is inside of the extents.** -/
theorem region_subset_of_mem_boxes {origin : K × K} {text : String} {size : K} (hsize : 0 ≤ size)
    {b : Box K} (hb : b ∈ boxes origin text size) :
    b.region ⊆ Set.Icc origin.1 (origin.1 + (extents text size).1) ×ˢ
      Set.Icc (origin.2 - (extents text size).2) origin.2 := by
  obtain ⟨cell, hcell, rfl⟩ := List.mem_map.mp hb
  obtain ⟨-, hcolumn, hrow⟩ := bounds_of_mem_cellsFrom hcell
  rw [String.length_toList] at hcolumn
  have hside : 0 ≤ cellSide size := cellSide_nonneg hsize
  have hbottom : origin.2 - size + rowCount * cellSide size = origin.2 := by
    rw [rowCount_mul_cellSide, sub_add_cancel]
  rw [extents_of_mem hcell]
  refine Set.prod_mono (Set.Icc_subset_Icc ?_ ?_) (Set.Icc_subset_Icc ?_ ?_)
  · exact le_add_of_nonneg_right (mul_nonneg (Nat.cast_nonneg _) hside)
  · exact far_edge_le hside origin.1 (by omega)
  · exact le_add_of_nonneg_right (mul_nonneg (Nat.cast_nonneg _) hside)
  · exact (far_edge_le hside (origin.2 - size) hrow).trans_eq hbottom

end Glyph

/-! ## Texts -/

namespace Trail

open scoped RideHud.Exact

variable {K : Type} [DivisionRing K] [LinearOrder K] [IsStrictOrderedRing K]

/-- **A text stays inside of its extents.** For every text, every size that is not negative and
every path with or without a current point, with exact arithmetic: the text has no cell twice, and
what it adds to the path are closed rectangles, all of which lie in the box as wide and as high as
its extents that stands on the current point. So what is placed beyond the measured width is clear
of it. -/
theorem text_staysInside (t : Trail K) (s : String) {size : K} (hsize : 0 ≤ size) :
    (Glyph.cells s).Nodup ∧
    (t.text s size).closed = t.closed ++ (Glyph.boxes t.origin s size).map Glyph.Box.corners ∧
    ∀ b ∈ Glyph.boxes t.origin s size,
      b.region ⊆ Set.Icc t.origin.1 (t.origin.1 + (Glyph.extents s size).1) ×ˢ
        Set.Icc (t.origin.2 - (Glyph.extents s size).2) t.origin.2 :=
  ⟨Glyph.nodup_cellsFrom 0 s.toList, t.closed_text s size,
    fun _ hb => Glyph.region_subset_of_mem_boxes hsize hb⟩

/-- A number with its unit, eleven columns and seven rows of it. The last column has cells. -/
theorem text_of_unit : (0 : ℚ) ≤ 7 ∧ (Glyph.cells "1G").Nodup ∧
    (⟨10, 1, 1, 1⟩ : Glyph.Box ℚ) ∈ Glyph.boxes corner.origin "1G" 7 ∧
    ∀ b ∈ Glyph.boxes corner.origin "1G" 7, b.region ⊆ Set.Icc (0 : ℚ) 11 ×ˢ Set.Icc (0 : ℚ) 7 := by
  have hsize : (0 : ℚ) ≤ 7 := by decide +kernel
  obtain ⟨hnodup, -, hinside⟩ := corner.text_staysInside "1G" hsize
  have hbox : Glyph.extents "1G" (7 : ℚ) = (11, 7) := by decide +kernel
  rw [hbox] at hinside
  refine ⟨hsize, hnodup, by decide +kernel, fun b hb => (hinside b hb).trans ?_⟩
  norm_num [corner, origin]

end Trail

end RideHud
