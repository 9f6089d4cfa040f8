/-!
# Colours

A colour has the shares of red, green and blue light, and how much of what is below it hides. Shares
lie between zero and one; what shares outside of that mean is up to the canvas.
-/

namespace RideHud

/-- A colour. -/
structure Colour where
  red : Float
  green : Float
  blue : Float
  /-- One hides what is below, zero shows it. -/
  alpha : Float
  deriving Repr, DecidableEq

namespace Colour

/-- No paint. -/
def transparent : Colour := ⟨0, 0, 0, 0⟩

/-- No light. -/
def black : Colour := ⟨0, 0, 0, 1⟩

/-- All light. -/
def white : Colour := ⟨1, 1, 1, 1⟩

/-- Red light only. -/
def pureRed : Colour := ⟨1, 0, 0, 1⟩

/-- Red and green light. -/
def yellow : Colour := ⟨1, 1, 0, 1⟩

/-- Green light only. -/
def pureGreen : Colour := ⟨0, 1, 0, 1⟩

/-- The shares in a word, one byte for each, with red in front. -/
def ofPacked (word : UInt32) : Colour :=
  let share (shift : UInt32) : Float := ((word >>> shift) &&& 0xff).toNat.toFloat / 255
  ⟨share 24, share 16, share 8, share 0⟩

/-- The shares, in order. -/
def toList (c : Colour) : List Float := [c.red, c.green, c.blue, c.alpha]

end Colour

/-! ## Paint -/

/-- A colour at a place between the ends of a gradient. -/
structure Stop where
  /-- Zero at the start, one at the end. -/
  offset : Float
  colour : Colour
  deriving Repr, DecidableEq

/-- What strokes and fills are painted with. -/
inductive Paint where
  /-- One colour. -/
  | solid (c : Colour)
  /-- Colours that change along a line from one point to another. -/
  | linear (start stop : Float × Float) (stops : List Stop)
  deriving Repr, DecidableEq

end RideHud
