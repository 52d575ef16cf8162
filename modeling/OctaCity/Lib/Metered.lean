/-
  OctaCity.Lib.Metered

  Fallible computations that draw steps from one shared allowance and fail once it
  is used up.  `Costs m value steps` says all about such a computation: with
  enough steps left it yields `value` (`none` for a failure) and takes exactly
  `steps` of them, with fewer it fails and leaves nothing.
-/
import Mathlib.Algebra.Ring.Nat

namespace OctaCity.Lib

/-- A fallible computation on the steps that are left. -/
abbrev Metered (ε α : Type) : Type := ExceptT ε (StateM Nat) α

namespace Metered

variable {ε α β : Type}

/-- Runs with an allowance; the result and what is left. -/
def run (m : Metered ε α) (remaining : Nat) : Except ε α × Nat := m remaining

/-- Takes one step. -/
def tick (exhausted : ε) : Metered ε Unit := fun remaining =>
  if remaining = 0 then (.error exhausted, 0) else (.ok (), remaining - 1)

/-- A result that takes no step. -/
def lift (result : Except ε α) : Metered ε α := fun remaining => (result, remaining)

/-- The computation yields the value after the steps, and fails on fewer. -/
def Costs (m : Metered ε α) (value : Option α) (steps : Nat) : Prop :=
  ∀ remaining, (m.run remaining).1.toOption = (if steps ≤ remaining then value else none) ∧
    (m.run remaining).2 = remaining - steps

theorem run_bind (m : Metered ε α) (f : α → Metered ε β) (remaining : Nat) :
    (m >>= f).run remaining =
      match m.run remaining with
      | (.ok a, left) => (f a).run left
      | (.error e, left) => (.error e, left) := by
  simp only [run, bind, ExceptT.bind, ExceptT.mk, ExceptT.bindCont, StateT.bind]
  rcases m remaining with ⟨result, left⟩
  cases result <;> rfl

namespace Costs

theorem pure (a : α) : Costs (pure a : Metered ε α) (some a) 0 := by
  intro remaining
  exact ⟨(if_pos (Nat.zero_le _)).symm, rfl⟩

theorem lift (result : Except ε α) : Costs (lift result) result.toOption 0 := by
  intro remaining
  exact ⟨(if_pos (Nat.zero_le _)).symm, rfl⟩

theorem tick (exhausted : ε) : Costs (tick exhausted) (some ()) 1 := by
  intro remaining
  unfold run Metered.tick
  by_cases hzero : remaining = 0
  · rw [if_pos hzero, if_neg (by omega)]
    exact ⟨rfl, by omega⟩
  · rw [if_neg hzero, if_pos (by omega)]
    exact ⟨rfl, rfl⟩

/-- A failure takes only the steps before it. -/
theorem bind {m : Metered ε α} {f : α → Metered ε β} {value : Option α} {steps : Nat}
    {g : α → Option β} {k : α → Nat} (h : Costs m value steps)
    (hf : ∀ a, value = some a → Costs (f a) (g a) (k a)) :
    Costs (m >>= f) (value.bind g) (steps + value.elim 0 k) := by
  intro remaining
  obtain ⟨hvalue, hleft⟩ := h remaining
  rw [run_bind]
  rcases hrun : m.run remaining with ⟨result, left⟩
  rw [hrun] at hvalue hleft
  simp only at hvalue hleft
  subst hleft
  cases result with
  | error e =>
    -- Either the value is unknown, or the allowance ended before it.
    cases value with
    | none =>
      refine ⟨?_, rfl⟩
      rw [Option.bind_none, ite_self]
      rfl
    | some a =>
      have hshort : ¬steps ≤ remaining := by
        intro henough
        rw [if_pos henough] at hvalue
        cases hvalue
      have hlonger : ¬steps + k a ≤ remaining := by omega
      refine ⟨?_, ?_⟩
      · exact (if_neg hlonger).symm
      · show remaining - steps = remaining - (steps + k a)
        omega
  | ok a =>
    have hsome : (if steps ≤ remaining then value else none) = some a := hvalue.symm
    have henough : steps ≤ remaining := by
      by_contra hshort
      rw [if_neg hshort] at hsome
      cases hsome
    rw [if_pos henough] at hsome
    obtain ⟨hnext, hnextLeft⟩ := hf a hsome (remaining - steps)
    simp only [hsome, Option.bind_some, Option.elim_some]
    refine ⟨?_, by omega⟩
    rw [hnext]
    congr 1
    simp only [eq_iff_iff]
    omega

theorem of_eq {m : Metered ε α} {value value' : Option α} {steps steps' : Nat}
    (h : Costs m value steps) (hvalue : value = value') (hsteps : steps = steps') :
    Costs m value' steps' := by
  rw [← hvalue, ← hsteps]
  exact h

/-- One more step before a computation. -/
theorem tick_bind {exhausted : ε} {f : Unit → Metered ε α} {value : Option α} {k : Nat}
    (h : Costs (f ()) value k) : Costs (Metered.tick exhausted >>= f) value (1 + k) :=
  ((tick exhausted).bind (g := fun _ => value) fun _ _ => h).of_eq rfl rfl

end Costs

end Metered

end OctaCity.Lib
