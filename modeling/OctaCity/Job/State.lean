/-
  OctaCity.Job.State

  Durable scheduling and execution state of one materialized Job
  (octacity-server-job, `JobState::transition`).
-/
import OctaCity.Domain.Transition

namespace OctaCity.Job

open Domain

inductive JobState
  | blocked
  | ready
  | leased
  | running
  | cancelling
  | succeeded
  | failed
  | cancelled
  | skipped
  deriving DecidableEq

inductive JobEvent
  | dependenciesSatisfied
  | dependencyFailed
  | leaseGranted
  | executionStarted
  | cancellationRequested
  | leaseLost
  | succeed
  | fail
  | cancel

namespace JobState

/-- Applies one fact without queue, lease, or persistence side effects. -/
def transition (state : JobState) (event : JobEvent) :
    Except (TransitionError JobState JobEvent) JobState :=
  match state, event with
  | .blocked, .dependenciesSatisfied => .ok .ready
  | .blocked, .dependencyFailed => .ok .skipped
  | .blocked, .cancellationRequested | .ready, .cancellationRequested => .ok .cancelled
  | .ready, .leaseGranted => .ok .leased
  | .leased, .executionStarted => .ok .running
  | .leased, .cancellationRequested | .running, .cancellationRequested => .ok .cancelling
  | .leased, .leaseLost | .running, .leaseLost => .ok .ready
  | .cancelling, .leaseLost | .cancelling, .cancel => .ok .cancelled
  | .running, .succeed | .cancelling, .succeed => .ok .succeeded
  | .running, .fail | .cancelling, .fail => .ok .failed
  | .running, .cancel => .ok .cancelled
  | state, event => .error ⟨.job, state, event⟩

/-- Reports whether no scheduling or execution transition remains. -/
def isTerminal : JobState → Bool
  | .succeeded | .failed | .cancelled | .skipped => true
  | _ => false

end JobState

end OctaCity.Job
