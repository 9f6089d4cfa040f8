/-!
# Repeatable noise

A permuted congruential generator: a 64-bit linear congruential state, of which 32 bits are
published after an exclusive-or with a shifted copy and a rotation by the top five bits. It starts
from the same state every time, so the draws are a fixed sequence.
-/

namespace RideHud.Noise

/-- The state of the generator. -/
abbrev State := UInt64

/-- The first state. -/
def start : State := 1 * 6364136223846793005 + 1

/-- The next state. -/
def State.next (s : State) : State := s * 6364136223846793005 + 1

/-- A 32-bit word turned to the right. -/
def rotateRight (x n : UInt32) : UInt32 := (x >>> n) ||| (x <<< ((32 - n) % 32))

/-- The number published in a state. -/
def State.output (s : State) : UInt32 :=
  rotateRight ((((s >>> 18) ^^^ s) >>> 27).toUInt32) ((s >>> 59).toUInt32)

/-- Add `n` draws from the state `s` on to those already made. -/
def extend (drawn : Array UInt32) (s : State) : Nat → Array UInt32
  | 0 => drawn
  | n + 1 => extend (drawn.push s.output) s.next n

/-- The first `n` draws. -/
def draws (n : Nat) : Array UInt32 := extend (Array.emptyWithCapacity n) start n

/-- Extending adds as many draws as asked for. -/
theorem size_extend (drawn : Array UInt32) (s : State) (n : Nat) :
    (extend drawn s n).size = drawn.size + n := by
  induction n generalizing drawn s with
  | zero => rfl
  | succ n ih => rw [extend, ih, Array.size_push]; omega

/-- There are as many draws as asked for. -/
@[simp] theorem size_draws (n : Nat) : (draws n).size = n := by simp [draws, size_extend]

end RideHud.Noise
