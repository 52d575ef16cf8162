/-
  OctaCity.Factory.Value

  Identities, sequence numbers, keys and references of the Factory domain
  (octacity-server-factory, `identity.rs`, `value.rs`, `configuration.rs`),
  the fenced claims its rows are observed under (`lifecycle_decision.rs`,
  `execution.rs`) and the errors its checks return (`error.rs`).
-/
import Mathlib.Data.Prod.Lex
import Mathlib.Data.String.Basic
import Mathlib.Order.Nat

namespace OctaCity.Factory

/-! ## Identities, keys and references -/

inductive FactoryEntityKind
  | factoryRun
  | flowDefinition
  | flowRun
  | nodeAttempt
  | workflowCycle

/-- Opaque non-nil identifier of one kind of entity. -/
structure FactoryId (entity : FactoryEntityKind) where
  uuid : Nat
  nonNil : uuid ≠ 0
  deriving DecidableEq

def FactoryId.ofSucc {entity : FactoryEntityKind} (n : Nat) : FactoryId entity :=
  ⟨n + 1, n.succ_ne_zero⟩

instance {entity : FactoryEntityKind} : LinearOrder (FactoryId entity) :=
  LinearOrder.lift' FactoryId.uuid fun a b h => by
    cases a
    cases b
    simpa using h

abbrev FactoryRunId := FactoryId .factoryRun
abbrev FlowDefinitionId := FactoryId .flowDefinition
abbrev FlowRunId := FactoryId .flowRun
abbrev NodeAttemptId := FactoryId .nodeAttempt
abbrev WorkflowCycleId := FactoryId .workflowCycle

/-- Positive 64-bit sequence value. -/
structure Sequence where
  value : Nat
  positive : 0 < value
  bounded : value < 2 ^ 64
  deriving DecidableEq

instance : LinearOrder Sequence :=
  LinearOrder.lift' Sequence.value fun a b h => by
    cases a
    cases b
    simpa using h

variable {a b sequence next : Sequence}

theorem Sequence.lt_iff : a < b ↔ a.value < b.value := Iff.rfl

theorem Sequence.eq_of_value (h : a.value = b.value) : a = b := by
  cases a
  cases b
  simpa using h

/-- First valid value. -/
def Sequence.initial : Sequence := ⟨1, by decide, by decide⟩

/-- The next value, unless the counter is exhausted. -/
def Sequence.next? (sequence : Sequence) : Option Sequence :=
  if h : sequence.value + 1 < 2 ^ 64 then some ⟨sequence.value + 1, Nat.succ_pos _, h⟩ else none

theorem Sequence.next?_eq_some (h : sequence.next? = some next) :
    next.value = sequence.value + 1 := by
  unfold Sequence.next? at h
  split at h
  · cases h
    rfl
  · cases h

theorem Sequence.lt_of_next? (h : sequence.next? = some next) : sequence < next := by
  have hvalue := Sequence.next?_eq_some h
  rw [Sequence.lt_iff]
  omega

abbrev FlowDefinitionVersion := Sequence
abbrev NodeAttemptNumber := Sequence
abbrev WorkflowCycleNumber := Sequence

/-- Provider-neutral stable key, ordered as its text. -/
structure FactoryKey where
  value : String
  deriving DecidableEq

instance : LinearOrder FactoryKey :=
  LinearOrder.lift' FactoryKey.value fun a b h => by
    cases a
    cases b
    simpa using h

theorem FactoryKey.eq_of_value {a b : FactoryKey} (h : a.value = b.value) : a = b := by
  cases a
  cases b
  simpa using h

/-- Content digest; only its equality and its order are read. -/
structure FactoryDigest where
  value : Nat
  deriving DecidableEq

instance : LinearOrder FactoryDigest :=
  LinearOrder.lift' FactoryDigest.value fun a b h => by
    cases a
    cases b
    simpa using h

/-- Versioned, content-addressed reference. -/
structure ImmutableReference where
  identity : FactoryKey
  version : FactoryKey
  digest : FactoryDigest
  deriving DecidableEq

instance : LinearOrder ImmutableReference :=
  LinearOrder.lift'
    (fun reference => toLex (reference.identity, toLex (reference.version, reference.digest)))
    fun a b h => by
      cases a
      cases b
      simpa using h

/-- Exact immutable identity of one Flow Definition version. -/
structure FlowDefinitionRef where
  id : FlowDefinitionId
  version : FlowDefinitionVersion
  digest : FactoryDigest
  deriving DecidableEq

instance : LinearOrder FlowDefinitionRef :=
  LinearOrder.lift'
    (fun reference => toLex (reference.id, toLex (reference.version, reference.digest)))
    fun a b h => by
      cases a
      cases b
      simpa using h

/-! ## Errors and claims -/

/-- Independently enforced category in a Factory hard budget. -/
inductive BudgetResource
  | attempts
  | elapsedTime
  | tokens
  | cost
  | outputBytes
  deriving DecidableEq

/-- A requested resource allowance rejected by its enclosing hard budget. -/
structure BudgetCeilingViolation where
  resource : BudgetResource
  requested : Nat
  maximum : Nat
  deriving DecidableEq

inductive FlowBudgetCeiling
  | admission
  | definition
  deriving DecidableEq

structure FlowBudgetCeilingViolation where
  definition : FlowDefinitionRef
  node : Option FactoryKey
  ceiling : FlowBudgetCeiling
  violation : BudgetCeilingViolation
  deriving DecidableEq

inductive FactoryError
  | invalidConfiguration (field : String)
  | invalidReference (relationship : String)
  | collectionLimitExceeded (collection : String)
  | invalidBudget (resource : BudgetResource)
  | budgetExceeded (resource : BudgetResource)
  | budgetCeilingExceeded (context : FlowBudgetCeilingViolation)
  | flowNodeCapacityExceeded (definition : FlowDefinitionRef) (requested maximum : Nat)
  | staleClaim
  | invalidClaim
  | expiredClaim
  deriving DecidableEq

def invalid (field : String) : FactoryError := .invalidConfiguration field

/-- Authoritative instant in Unix milliseconds. -/
structure Timestamp where
  unixMillis : Int
  deriving DecidableEq

instance : LinearOrder Timestamp :=
  LinearOrder.lift' Timestamp.unixMillis fun a b h => by
    cases a
    cases b
    simpa using h

/-- Current exclusive ownership window for one Factory Run reconciliation. -/
structure FactoryClaim where
  fence : FactoryDigest
  claimedAt : Timestamp
  expiresAt : Timestamp
  window : claimedAt < expiresAt
  deriving DecidableEq

/-- Verifies that a presented fence owns the claim at an authoritative time. -/
def FactoryClaim.verifyFence (claim : FactoryClaim) (presentedFence : FactoryDigest)
    (observedAt : Timestamp) : Except FactoryError Unit :=
  if claim.fence ≠ presentedFence then .error .staleClaim
  else if observedAt < claim.claimedAt then .error .invalidClaim
  else if claim.expiresAt ≤ observedAt then .error .expiredClaim
  else .ok ()

/-- Fenced worker ownership attached to immutable Factory execution records. -/
structure FactoryClaimOwnership where
  owner : FactoryKey
  claim : FactoryClaim
  deriving DecidableEq

end OctaCity.Factory
