/-!
# Marks

The detectors answer with one mark per record: nothing, something high or something low.
-/

namespace RideHud

/-- What a detector says about a record. -/
inductive Mark where
  /-- Nothing to see. -/
  | plain
  /-- A peak, or a value above what was expected. -/
  | high
  /-- A trough, or a value below what was expected. -/
  | low
  deriving Repr, DecidableEq, Inhabited

namespace Mark

/-- One for high, minus one for low. -/
def toInt : Mark → Int
  | .plain => 0
  | .high => 1
  | .low => -1

/-- High and low exchanged. -/
def flip : Mark → Mark
  | .plain => .plain
  | .high => .low
  | .low => .high

@[simp] theorem flip_flip (m : Mark) : m.flip.flip = m := by cases m <;> rfl

/-- Exchanging high and low changes the sign. -/
theorem toInt_flip (m : Mark) : m.flip.toInt = -m.toInt := by cases m <;> rfl

/-- Whether anything was marked. -/
def isMarked (m : Mark) : Bool := m != .plain

/-- The marked places of a list of marks, in order. -/
def places (marks : List Mark) : List (Nat × Mark) :=
  (marks.zipIdx.map fun (m, i) => (i, m)).filter (·.2.isMarked)

end Mark

end RideHud
