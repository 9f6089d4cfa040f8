import RideHud.Sample

/-!
# Looking up a time

The record that is current at a time is the first one, after the very first, that is later than
it. A search may start at a hint: the place that was found for an earlier time.
-/

namespace RideHud.Timeline

/-- Why no record is found. -/
inductive LookupFailure where
  /-- There are no records. -/
  | empty
  /-- The hint is no place of the `length` records. -/
  | hintOutside (hint length : Nat)
  /-- The time is not before that of the last record. -/
  | pastLast (last : Micros)
  /-- No record from the hint on is later. -/
  | noLater
  deriving Repr, DecidableEq

/-- A time for which no record is found. -/
structure LookupError where
  target : Micros
  failure : LookupFailure
  deriving Repr, DecidableEq

/-- What a failure says to the user. -/
def LookupFailure.message : LookupFailure → String
  | .empty => "store is empty"
  | .hintOutside hint length => s!"hint {hint} out of bounds for {length} records"
  | .pastLast last => s!"past last record at {last}us"
  | .noLater => "no later record"

/-- What an error says to the user. -/
def LookupError.message (e : LookupError) : String :=
  s!"lookup out of range for t={e.target}us: {e.failure.message}"

/-- The place of the first record later than `target`, from the hint on but not before the second
record. -/
def lookup {β : Type} [Stamped β] (records : List β) (hint : Nat) (target : Micros) :
    Except LookupError Nat :=
  match records.getLast? with
  | none => .error ⟨target, .empty⟩
  | some last =>
    if records.length ≤ hint then .error ⟨target, .hintOutside hint records.length⟩
    else if Stamped.time last ≤ target then .error ⟨target, .pastLast (Stamped.time last)⟩
    else
      let start := max hint 1
      match (records.drop start).findIdx? fun r => target < Stamped.time r with
      | some k => .ok (start + k)
      | none => .error ⟨target, .noLater⟩

end RideHud.Timeline
