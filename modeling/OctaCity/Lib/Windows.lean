/-
  OctaCity.Lib.Windows

  Sequences of closed windows over a linear order.  Windows that each start no
  later than the previous one ends leave no instant out up to their frontier.
-/
import Mathlib.Order.Lattice

namespace OctaCity.Lib

variable {α : Type}

/-- The end of the last window, or the origin. -/
def frontier (origin : α) : List (α × α) → α
  | [] => origin
  | window :: rest => frontier window.2 rest

/-- Every window starts no later than the one before it ends. -/
def Gapless [LinearOrder α] (origin : α) : List (α × α) → Prop
  | [] => True
  | window :: rest => window.1 ≤ origin ∧ Gapless window.2 rest

@[simp] theorem frontier_nil (origin : α) : frontier origin [] = origin := rfl

@[simp]
theorem frontier_append_singleton (origin : α) (windows : List (α × α)) (window : α × α) :
    frontier origin (windows ++ [window]) = window.2 := by
  induction windows generalizing origin with
  | nil => rfl
  | cons first rest ih => exact ih first.2

variable [LinearOrder α]

@[simp] theorem gapless_nil (origin : α) : Gapless origin [] := trivial

theorem gapless_append_singleton {origin : α} {windows : List (α × α)} {window : α × α} :
    Gapless origin (windows ++ [window]) ↔
      Gapless origin windows ∧ window.1 ≤ frontier origin windows := by
  induction windows generalizing origin with
  | nil => simp [Gapless, frontier]
  | cons first rest ih =>
    simp only [List.cons_append, Gapless, frontier, ih, and_assoc]

/-- Gapless windows cover everything from the origin to their frontier. -/
theorem Gapless.covers {origin : α} {windows : List (α × α)} (h : Gapless origin windows)
    {at_ : α} (hlow : origin ≤ at_) (hhigh : at_ ≤ frontier origin windows) :
    at_ = origin ∨ ∃ window ∈ windows, window.1 ≤ at_ ∧ at_ ≤ window.2 := by
  induction windows generalizing origin with
  | nil => exact .inl (le_antisymm hhigh hlow)
  | cons first rest ih =>
    right
    by_cases hfirst : at_ ≤ first.2
    · exact ⟨first, List.mem_cons_self .., h.1.trans hlow, hfirst⟩
    · have hafter : first.2 ≤ at_ := (not_le.mp hfirst).le
      rcases ih h.2 hafter hhigh with heq | ⟨window, hmem, hin⟩
      · exact absurd heq.le hfirst
      · exact ⟨window, List.mem_cons_of_mem _ hmem, hin⟩

end OctaCity.Lib
