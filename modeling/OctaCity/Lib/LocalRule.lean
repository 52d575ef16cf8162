/-
  OctaCity.Lib.LocalRule

  Assignments fixed by a rule that reads only the predecessors of a point.
  On a well-founded dependency relation such a rule has at most one fixed
  assignment, and every non-empty set of points has a member none of whose
  predecessors is in the set.
-/
import Mathlib.Order.WellFounded

namespace OctaCity.Lib

variable {ι σ : Type*} {dep : ι → ι → Prop} {rule : ι → (ι → σ) → σ} {s : Set ι}

/-- `rule` reads only the values at the predecessors of the points of `s`. -/
def IsLocalRule (dep : ι → ι → Prop) (s : Set ι) (rule : ι → (ι → σ) → σ) : Prop :=
  ∀ i ∈ s, ∀ f g : ι → σ, (∀ j, dep j i → f j = g j) → rule i f = rule i g

/-- Every point of `s` has the value the rule gives it. -/
def IsFixedBy (rule : ι → (ι → σ) → σ) (s : Set ι) (f : ι → σ) : Prop :=
  ∀ i ∈ s, f i = rule i f

/-- A local rule has at most one fixed assignment on a well-founded set that
    contains the predecessors of its points. -/
theorem IsFixedBy.eqOn {f g : ι → σ} (hlocal : IsLocalRule dep s rule)
    (hclos : ∀ i ∈ s, ∀ j, dep j i → j ∈ s) (hacc : ∀ i ∈ s, Acc dep i)
    (hf : IsFixedBy rule s f) (hg : IsFixedBy rule s g) : Set.EqOn f g s := by
  intro i hi
  induction hacc i hi with
  | intro i _ ih =>
    rw [hf i hi, hg i hi]
    exact hlocal i hi f g fun j hj => ih j hj (hclos i hi j hj)

/-- Below an accessible point with `P` there is a point with `P` none of whose
    predecessors has `P`. -/
theorem exists_minimal_of_acc {P : ι → Prop} {i : ι} (hacc : Acc dep i) (hi : P i) :
    ∃ m, P m ∧ ∀ j, dep j m → ¬ P j := by
  induction hacc with
  | intro i _ ih =>
    by_cases h : ∃ j, dep j i ∧ P j
    · obtain ⟨j, hj, hPj⟩ := h
      exact ih j hj hPj
    · exact ⟨i, hi, fun j hj hPj => h ⟨j, hj, hPj⟩⟩

end OctaCity.Lib
