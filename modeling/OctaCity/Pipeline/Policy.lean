/-
  OctaCity.Pipeline.Policy

  Fan-in and failure-propagation policy of a Pipeline Job
  (octacity-server-pipeline, `DependencyPolicy::decide`).  `decide` scans the
  direct predecessor outcomes once and keeps four flags.
-/
import Mathlib.Data.List.Forall2

namespace OctaCity.Pipeline

inductive DependencyPolicy
  | allSucceeded
  | allCompleted
  | anySucceeded
  deriving DecidableEq

inductive DependencyOutcome
  | pending
  | succeeded
  | failed
  | cancelled
  | skipped
  deriving DecidableEq

inductive DependencyDecision
  | blocked
  | ready
  | skipped

/-- The four flags `decide` accumulates over the predecessor outcomes. -/
structure Observation where
  observed : Bool
  pending : Bool
  succeeded : Bool
  unsuccessful : Bool

namespace Observation

def initial : Observation := ⟨false, false, false, false⟩

def observe (flags : Observation) (outcome : DependencyOutcome) : Observation :=
  match outcome with
  | .pending => { flags with observed := true, pending := true }
  | .succeeded => { flags with observed := true, succeeded := true }
  | .failed | .cancelled | .skipped => { flags with observed := true, unsuccessful := true }

def scan (outcomes : List DependencyOutcome) : Observation :=
  outcomes.foldl observe initial

end Observation

namespace DependencyOutcome

def isUnsuccessful : DependencyOutcome → Bool
  | .failed | .cancelled | .skipped => true
  | .pending | .succeeded => false

end DependencyOutcome

namespace DependencyPolicy

/-- Evaluates a non-empty set of direct predecessor outcomes; empty input
    stays blocked. -/
def decide (policy : DependencyPolicy) (outcomes : List DependencyOutcome) :
    DependencyDecision :=
  let flags := Observation.scan outcomes
  if !flags.observed then .blocked
  else
    match policy with
    | .allSucceeded =>
      if flags.unsuccessful then .skipped else if flags.pending then .blocked else .ready
    | .allCompleted => if flags.pending then .blocked else .ready
    | .anySucceeded =>
      if flags.succeeded then .ready else if flags.pending then .blocked else .skipped

end DependencyPolicy

/-! ## What the scan observes -/

namespace Observation

theorem foldl_observe (outcomes : List DependencyOutcome) (flags : Observation) :
    outcomes.foldl observe flags = ⟨flags.observed || !outcomes.isEmpty,
       flags.pending || outcomes.any (· = .pending),
       flags.succeeded || outcomes.any (· = .succeeded),
       flags.unsuccessful || outcomes.any (·.isUnsuccessful)⟩ := by
  induction outcomes generalizing flags with
  | nil => simp
  | cons outcome rest ih =>
    rw [List.foldl_cons, ih]
    cases outcome <;> simp [observe, DependencyOutcome.isUnsuccessful]

theorem scan_eq (outcomes : List DependencyOutcome) : scan outcomes =
      ⟨!outcomes.isEmpty, outcomes.any (· = .pending), outcomes.any (· = .succeeded),
       outcomes.any (·.isUnsuccessful)⟩ := by
  simp [scan, foldl_observe, initial]

end Observation

/-! ## Monotonicity of the policies -/

/-- `after` is what is known about a predecessor once `before` was known: a
    terminal outcome never changes. -/
def Learns (before after : DependencyOutcome) : Prop :=
  before = .pending ∨ after = before

theorem Learns.refl (outcome : DependencyOutcome) : Learns outcome outcome := Or.inr rfl

theorem Learns.of_ne_pending {before after : DependencyOutcome} (h : Learns before after)
    (hb : before ≠ .pending) : after = before :=
  h.resolve_left hb

variable {before after : List DependencyOutcome}

/-- A known terminal outcome is still there once more is known. -/
theorem any_of_learns (h : List.Forall₂ Learns before after) {p : DependencyOutcome → Bool}
    (hp : p .pending = false) (hany : before.any p = true) : after.any p = true := by
  induction h with
  | nil => exact hany
  | cons hab _ ih =>
    rw [List.any_cons, Bool.or_eq_true] at hany ⊢
    rcases hany with ha | hrest
    · left
      rw [hab.of_ne_pending (by rintro rfl; rw [hp] at ha; cases ha)]
      exact ha
    · exact Or.inr (ih hrest)

/-- Without pending predecessors nothing is left to learn. -/
theorem eq_of_learns
    (h : List.Forall₂ Learns before after) (hp : before.any (· = .pending) = false) :
    after = before := by
  induction h with
  | nil => rfl
  | cons hab _ ih =>
    simp only [List.any_cons, Bool.or_eq_false_iff, decide_eq_false_iff_not] at hp
    rw [hab.of_ne_pending hp.1, ih hp.2]

namespace DependencyPolicy

/-- A decision other than `blocked` survives every later predecessor outcome. -/
theorem decide_of_learns (policy : DependencyPolicy)
    (h : List.Forall₂ Learns before after) (hd : policy.decide before ≠ .blocked) :
    policy.decide after = policy.decide before := by
  by_cases hp : before.any (· = .pending) = true
  · have hne : before ≠ [] := by
      rintro rfl
      simp at hp
    have hne' : after ≠ [] := by
      rintro rfl
      exact hne (List.forall₂_nil_right_iff.mp h)
    have hb : before.isEmpty = false := by simpa using hne
    have ha : after.isEmpty = false := by simpa using hne'
    cases policy with
    | allSucceeded =>
      -- The early decision was a skip, taken on a recorded failure.
      have hu : before.any (·.isUnsuccessful) = true := by
        by_contra hu
        simp [decide, Observation.scan_eq, hb, hp, hu] at hd
      have hu' := any_of_learns h rfl hu
      simp [decide, Observation.scan_eq, hb, ha, hu, hu']
    | allCompleted =>
      simp [decide, Observation.scan_eq, hb, hp] at hd
    | anySucceeded =>
      -- The early decision was readiness, taken on a recorded success.
      have hs : before.any (· = .succeeded) = true := by
        by_contra hs
        simp [decide, Observation.scan_eq, hb, hp, hs] at hd
      have hs' := any_of_learns h (p := (· = .succeeded)) rfl hs
      simp [decide, Observation.scan_eq, hb, ha, hs, hs']
  · rw [eq_of_learns h (Bool.eq_false_iff.mpr hp)]

/-- A complete non-empty fan-in is always decided. -/
theorem decide_ne_blocked (policy : DependencyPolicy) {outcomes : List DependencyOutcome}
    (hne : outcomes ≠ []) (hp : ∀ outcome ∈ outcomes, outcome ≠ .pending) :
    policy.decide outcomes ≠ .blocked := by
  have hb : outcomes.isEmpty = false := by simpa using hne
  have hnp : outcomes.any (· = .pending) = false := by
    simpa using hp
  cases policy with
  | allSucceeded =>
    simp only [decide, Observation.scan_eq, hb, hnp]
    cases outcomes.any (·.isUnsuccessful) <;> simp
  | allCompleted => simp [decide, Observation.scan_eq, hb, hnp]
  | anySucceeded =>
    simp only [decide, Observation.scan_eq, hb, hnp]
    cases outcomes.any (· = .succeeded) <;> simp

end DependencyPolicy

end OctaCity.Pipeline
