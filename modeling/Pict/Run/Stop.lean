/-!
# Stopping a run

A caller may hand a run a `Stop`. The run asks it from time to time; once it
refuses, the run ends with the reason.
-/
namespace Pict

/-- Why a run is asked to end. -/
inductive StopReason where
  | cancelled
  | timedOut
  deriving DecidableEq, Repr

/-- When a run is asked to end. -/
inductive Stop where
  | never
  /-- The first `passing` checks pass, every later one is refused. -/
  | after (passing : Nat) (reason : StopReason)
  deriving DecidableEq, Repr

/-- The answer to a check that `earlier` checks came before. -/
def Stop.refusal? : Stop → (earlier : Nat) → Option StopReason
  | .never, _ => none
  | .after passing reason, earlier => if earlier < passing then none else some reason

end Pict
