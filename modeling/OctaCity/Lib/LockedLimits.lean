/-
  OctaCity.Lib.LockedLimits

  Limits that concurrent processes check under locks.  Every scope has a load
  and one lock that guards it; a process that found a scope below a limit while
  it held the lock can rely on that until it gives the lock up, because nobody
  else adds to the scope in between.
-/
import Mathlib.Logic.Basic

namespace OctaCity.Lib

/-- The loads, the locks each process holds, and the limits each process found a
    scope below. -/
structure Admission (Process Lock Scope : Type) where
  load : Scope → Nat
  held : Process → Lock → Prop
  checked : Process → Scope → Nat → Prop

namespace Admission

variable {Process Lock Scope : Type} {guard : Scope → Lock} {a a' : Admission Process Lock Scope}

/-- A lock has one holder, and what was checked under a lock still holds. -/
structure Sound (guard : Scope → Lock) (a : Admission Process Lock Scope) : Prop where
  exclusive : ∀ {p q lock}, a.held p lock → a.held q lock → p = q
  covered : ∀ {p scope limit}, a.checked p scope limit → a.held p (guard scope)
  below : ∀ {p scope limit}, a.checked p scope limit → a.load scope < limit

/-- A step outside of the processes: no load grows. -/
structure Drains (a a' : Admission Process Lock Scope) : Prop where
  held : ∀ {p lock}, a'.held p lock → a.held p lock
  covered : ∀ {p scope limit}, a'.checked p scope limit →
    a.checked p scope limit ∧ (∀ lock, a.held p lock → a'.held p lock)
  load : ∀ scope, a'.load scope ≤ a.load scope

/-- A step of one process: it takes free locks, checks what it holds, and adds to
    no scope that another process guards. -/
structure Moves (guard : Scope → Lock) (mover : Process) (a a' : Admission Process Lock Scope) :
    Prop where
  others : ∀ {p}, p ≠ mover → (∀ lock, a'.held p lock ↔ a.held p lock) ∧
    ∀ scope limit, a'.checked p scope limit → a.checked p scope limit
  free : ∀ {lock}, a'.held mover lock → a.held mover lock ∨ ∀ p, ¬ a.held p lock
  checked : ∀ {scope limit}, a'.checked mover scope limit →
    a'.held mover (guard scope) ∧ a'.load scope < limit
  load : ∀ {p scope}, p ≠ mover → a.held p (guard scope) → a'.load scope ≤ a.load scope

theorem Sound.drains (h : a.Sound guard) (hdrains : Drains a a') : a'.Sound guard where
  exclusive hp hq := h.exclusive (hdrains.held hp) (hdrains.held hq)
  covered hchk := by
    obtain ⟨hbef, hheld⟩ := hdrains.covered hchk
    exact hheld _ (h.covered hbef)
  below hchk :=
    Nat.lt_of_le_of_lt (hdrains.load _) (h.below (hdrains.covered hchk).1)

theorem Sound.moves (h : a.Sound guard) (mover : Process) (hmoves : Moves guard mover a a') :
    a'.Sound guard where
  exclusive := by
    -- a lock the mover took was free, every other one it held before
    have hmover : ∀ {p lock}, p ≠ mover → a'.held p lock → ¬ a'.held mover lock := by
      intro p lock hne hp hown
      have hbef := ((hmoves.others hne).1 lock).mp hp
      obtain hheld | hfree := hmoves.free hown
      · exact hne (h.exclusive hbef hheld)
      · exact hfree p hbef
    intro p q lock hp hq
    by_cases hpm : p = mover
    · by_cases hqm : q = mover
      · rw [hpm, hqm]
      · exact absurd (hpm ▸ hp) (hmover hqm hq)
    · by_cases hqm : q = mover
      · exact absurd (hqm ▸ hq) (hmover hpm hp)
      · exact h.exclusive (((hmoves.others hpm).1 lock).mp hp) (((hmoves.others hqm).1 lock).mp hq)
  covered := by
    intro p scope limit hchk
    by_cases hpm : p = mover
    · subst hpm
      exact (hmoves.checked hchk).1
    · obtain ⟨hheld, hbef⟩ := hmoves.others hpm
      exact (hheld _).mpr (h.covered (hbef scope limit hchk))
  below := by
    intro p scope limit hchk
    by_cases hpm : p = mover
    · subst hpm
      exact (hmoves.checked hchk).2
    · have hbef := (hmoves.others hpm).2 scope limit hchk
      exact Nat.lt_of_le_of_lt (hmoves.load hpm (h.covered hbef)) (h.below hbef)

end Admission

end OctaCity.Lib
