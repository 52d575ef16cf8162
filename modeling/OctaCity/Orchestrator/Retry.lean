/-
  OctaCity.Orchestrator.Retry

  Aggregate state machines of a Build and an Attempt, and the decision to
  retry one failed Attempt (octacity-server-orchestrator, `attempt.rs`,
  `build.rs`, `retry.rs`).
-/
import OctaCity.Orchestrator.Reconcile

namespace OctaCity.Orchestrator

open Domain Lib

inductive AttemptEvent
  | start
  | succeed
  | fail
  | cancel

inductive BuildEvent
  | start
  | succeed
  | fail
  | cancel
  | retry

def AttemptState.transition (state : AttemptState) (event : AttemptEvent) :
    Except (TransitionError AttemptState AttemptEvent) AttemptState :=
  match state, event with
  | .created, .start => .ok .running
  | .created, .cancel | .running, .cancel => .ok .cancelled
  | .running, .succeed => .ok .succeeded
  | .running, .fail => .ok .failed
  | state, event => .error ⟨.attempt, state, event⟩

def BuildState.transition (state : BuildState) (event : BuildEvent) :
    Except (TransitionError BuildState BuildEvent) BuildState :=
  match state, event with
  | .queued, .start => .ok .running
  | .queued, .cancel | .running, .cancel => .ok .cancelled
  | .running, .succeed => .ok .succeeded
  | .running, .fail => .ok .failed
  | .failed, .retry => .ok .queued
  | state, event => .error ⟨.build, state, event⟩

/-- Deterministic state and identity allocation for one Build retry. -/
structure RetryDecision where
  attemptNumber : Nat
  attemptState : AttemptState
  buildState : BuildState

inductive RetryDecisionError
  | buildNotFailed
  | attemptNotFailed
  | attemptNumberOverflow

/-- `AttemptNumber::next` on a `u64`. -/
def nextAttemptNumber (number : Nat) : Except RetryDecisionError Nat :=
  if number + 1 < 2 ^ 64 then .ok (number + 1) else .error .attemptNumberOverflow

/-- Decides whether one latest failed Attempt may be retried. -/
def decideRetry (buildState : BuildState) (attemptState : AttemptState)
    (latestAttemptNumber : Nat) : Except RetryDecisionError RetryDecision := do
  let reopened ← (buildState.transition .retry).mapError fun _ => .buildNotFailed
  if attemptState ≠ .failed then .error .attemptNotFailed
  else
    let buildState ← (reopened.transition .start).mapError fun _ => .buildNotFailed
    let attemptState ← (AttemptState.created.transition .start).mapError fun _ => .attemptNotFailed
    let attemptNumber ← nextAttemptNumber latestAttemptNumber
    .ok { attemptNumber, attemptState, buildState }

/-- A retry starts a running Attempt after a failed one. -/
theorem decideRetry_eq_ok {buildState : BuildState} {attemptState : AttemptState} {number : Nat}
    {decision : RetryDecision} (h : decideRetry buildState attemptState number = .ok decision) :
    buildState = .failed ∧ attemptState = .failed ∧
      decision = ⟨number + 1, .running, .running⟩ := by
  cases buildState <;> try cases h
  by_cases ha : attemptState = .failed
  · subst ha
    by_cases hn : number + 1 < 2 ^ 64
    · have hnext : nextAttemptNumber number = .ok (number + 1) := if_pos hn
      rw [decideRetry, hnext] at h
      cases h
      exact ⟨rfl, rfl, rfl⟩
    · have hnext : nextAttemptNumber number = .error .attemptNumberOverflow := if_neg hn
      rw [decideRetry, hnext] at h
      cases h
  · have herr : decideRetry .failed attemptState number = .error .attemptNotFailed := by
      simp only [decideRetry, BuildState.transition, Except.mapError]
      exact if_pos ha
    rw [herr] at h
    cases h

end OctaCity.Orchestrator
