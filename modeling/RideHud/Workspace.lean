/-!
# Working storage

Arrays whose size the input decides are reserved before they are filled. Whether there is room is up
to the machine: what is known of all machines is that nothing beyond their addresses can be reserved.
A request beyond these is refused, so it fails as a value and at once.
-/

namespace RideHud.Workspace

/-- The number of bytes that a process can address, with the 47 bits that processors of 64 bits leave
to it. It stands for the allocator, which may refuse less than that, but grants no more. -/
def addressable : Nat := Nat.pow 2 47

/-- More elements were asked for than can be reserved. -/
structure Shortage where
  requested : Nat
  deriving Repr, DecidableEq

/-- What a shortage says to the user. -/
def Shortage.message (s : Shortage) : String := s!"allocation of {s.requested} elements failed"

/-- Reserve room for `n` elements of some bytes each. -/
def reserve (n bytesEach : Nat) : Except Shortage Unit :=
  if n * bytesEach ≤ addressable then .ok () else .error ⟨n⟩

end RideHud.Workspace
