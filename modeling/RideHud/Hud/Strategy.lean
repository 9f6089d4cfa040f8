import RideHud.Draw.Sketch
import RideHud.Hud.View

/-!
# Strategies

A strategy draws the HUD of one mode. It looks at the recording once (`Strategy.prepare`) and then
draws frames in two stages (`Scene`). A scene may search the recording from where its last search
ended, which the cursor tells; how a frame looks must not depend on it. The search is made in the
middle of the drawing, at a mark, so a drawing that fails before leaves the cursor.
-/

namespace RideHud

/-- Where the last search of a scene ended, and for which time. -/
structure Cursor where
  time : Micros := 0
  place : Nat := 0
  deriving Repr, DecidableEq

/-- The frames of a recording. Stages are drawn for what the HUD sees and a size in pixels. -/
structure Scene where
  content : View → Float × Float → Sketch HudError := fun _ _ => []
  /-- The overlay, and the cursor from the mark in it on. -/
  overlay : View → Float × Float → Cursor → Sketch HudError × Cursor :=
    fun _ _ cursor => ([], cursor)

/-- How the HUD of a mode is drawn. -/
structure Strategy where
  name : String
  /-- Look at the recording. -/
  prepare : View → Except HudError Scene := fun _ => .ok {}

/-- The strategy of the booster, which draws nothing. -/
def Strategy.booster : Strategy where
  name := "booster"

/-! ## Modes -/

/-- Which strategies there are. A mode without one has frames on which nothing is drawn. -/
abbrev Registry := List (Mode × Strategy)

namespace Registry

/-- The strategy of a mode. -/
def get? (r : Registry) (mode : Mode) : Option Strategy := r.lookup mode

/-- Use a strategy for a mode from now on. -/
def register (r : Registry) (mode : Mode) (s : Strategy) : Registry := (mode, s) :: r

@[simp] theorem get?_register_self (r : Registry) (mode : Mode) (s : Strategy) :
    (r.register mode s).get? mode = some s := by
  simp [get?, register]

/-- A strategy concerns its own mode only. -/
theorem get?_register_of_ne (r : Registry) {mode other : Mode} (s : Strategy) (h : other ≠ mode) :
    (r.register mode s).get? other = r.get? other := by
  simp [get?, register, List.lookup_cons, beq_eq_false_iff_ne.mpr h]

end Registry

end RideHud
