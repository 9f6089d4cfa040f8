/-!
# How much is logged
-/

namespace RideHud.Console

/-- How much is logged. -/
inductive Verbosity where
  | quiet
  | normal
  | debug
  | trace
  deriving Repr, DecidableEq

namespace Verbosity

/-- The verbosity for a wish to be quiet and a number of wishes for more. -/
def ofFlags (quiet : Bool) (verbose : Nat) : Verbosity :=
  if quiet then .quiet
  else match verbose with
    | 0 => .normal
    | 1 => .debug
    | _ => .trace

/-- The filter of the log. -/
def directive : Verbosity → String
  | .quiet => "warn"
  | .normal => "info"
  | .debug => "info,sensorhud=debug,ingestion=debug,timeline=debug,analysis=debug,hud=debug"
  | .trace => "trace"

end Verbosity

end RideHud.Console
