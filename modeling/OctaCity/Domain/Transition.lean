/-
  OctaCity.Domain.Transition

  The rejection every server-side state machine returns for an unsupported
  state and event pair, and the opaque identities its rows are keyed by.
-/
import Mathlib.Order.Nat

namespace OctaCity.Domain

/-- Entities whose state machines are modelled. -/
inductive EntityKind
  | attempt
  | build
  | job
  | orchestration

/-- Rejection of one event in one state. -/
structure TransitionError (S E : Type) where
  entity : EntityKind
  state : S
  event : E

/-- Opaque Job identity; only its equality and its order are read. -/
structure JobId where
  uuid : Nat
  deriving DecidableEq

instance : LinearOrder JobId :=
  LinearOrder.lift' JobId.uuid fun a b h => by
    cases a
    cases b
    simpa using h

end OctaCity.Domain
