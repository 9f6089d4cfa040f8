import RideHud.Scalar

/-!
# Glyphs

Text is written in a font of five by seven square cells for each character, with a blank column
between characters. There are glyphs for digits, sign, decimal point and units; any other character
is blank and as wide. The size of a text is the height of its glyphs.
-/

namespace RideHud.Glyph

open scoped Scalar

/-! ## Cells -/

/-- The number of columns of a glyph. -/
def columns : Nat := 5

/-- The number of rows of a glyph. -/
def rowCount : Nat := 7

/-- The number of columns from one glyph to the next. -/
def advance : Nat := columns + 1

/-- The rows of a glyph from top to bottom, each a number whose bits are its cells, with the lowest
bit at the right. -/
def rows : Char → List Nat
  | '0' => [0b01110, 0b10001, 0b10011, 0b10101, 0b11001, 0b10001, 0b01110]
  | '1' => [0b00100, 0b01100, 0b00100, 0b00100, 0b00100, 0b00100, 0b01110]
  | '2' => [0b01110, 0b10001, 0b00001, 0b00010, 0b00100, 0b01000, 0b11111]
  | '3' => [0b11111, 0b00010, 0b00100, 0b00010, 0b00001, 0b10001, 0b01110]
  | '4' => [0b00010, 0b00110, 0b01010, 0b10010, 0b11111, 0b00010, 0b00010]
  | '5' => [0b11111, 0b10000, 0b11110, 0b00001, 0b00001, 0b10001, 0b01110]
  | '6' => [0b00110, 0b01000, 0b10000, 0b11110, 0b10001, 0b10001, 0b01110]
  | '7' => [0b11111, 0b00001, 0b00010, 0b00100, 0b01000, 0b01000, 0b01000]
  | '8' => [0b01110, 0b10001, 0b10001, 0b01110, 0b10001, 0b10001, 0b01110]
  | '9' => [0b01110, 0b10001, 0b10001, 0b01111, 0b00001, 0b00010, 0b01100]
  | '.' => [0b00000, 0b00000, 0b00000, 0b00000, 0b00000, 0b01100, 0b01100]
  | '-' => [0b00000, 0b00000, 0b00000, 0b11111, 0b00000, 0b00000, 0b00000]
  | 'G' => [0b01110, 0b10001, 0b10000, 0b10011, 0b10001, 0b10001, 0b01110]
  | 'm' => [0b00000, 0b00000, 0b11010, 0b10101, 0b10101, 0b10001, 0b10001]
  | _ => List.replicate rowCount 0

/-- The filled cells of a glyph, as column and row from its upper left corner. -/
def glyphCells (ch : Char) : List (Nat × Nat) :=
  (List.range rowCount).flatMap fun row =>
    ((List.range columns).filter fun column =>
      ((rows ch).getD row 0).testBit (columns - 1 - column)).map fun column => (column, row)

/-- The filled cells of a text whose first glyph starts at a column. -/
def cellsFrom (column : Nat) : List Char → List (Nat × Nat)
  | [] => []
  | ch :: text =>
    (glyphCells ch).map (fun cell => (column + cell.1, cell.2)) ++
      cellsFrom (column + advance) text

/-- The filled cells of a text, as column and row from its upper left corner. -/
def cells (text : String) : List (Nat × Nat) := cellsFrom 0 text.toList

/-! ## Measures -/

variable {α : Type} [Scalar α]

/-- The side of a cell. -/
def cellSide (size : α) : α := size / Nat.cast rowCount

/-- Width and height of a text, without the blank column behind it. -/
def extents (text : String) (size : α) : α × α :=
  if text.length = 0 then (0, 0)
  else (Nat.cast (text.length * advance - 1) * cellSide size, size)

/-- A rectangle with sides along the axes. -/
structure Box (α : Type) where
  x : α
  y : α
  width : α
  height : α
  deriving Repr, DecidableEq

/-- The boxes of the filled cells of a text that stands on a point. -/
def boxes (origin : α × α) (text : String) (size : α) : List (Box α) :=
  let side := cellSide size
  let top := origin.2 - size
  (cells text).map fun cell =>
    ⟨origin.1 + Nat.cast cell.1 * side, top + Nat.cast cell.2 * side, side, side⟩

/-- The point on which a text stands that follows another. -/
def following (origin : α × α) (text : String) (size : α) : α × α :=
  (origin.1 + ((extents text size).1 + cellSide size), origin.2)

end RideHud.Glyph
