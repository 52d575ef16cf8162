/-
  OctaCity.Lib.Successor

  Walking a set of points through a function that finds the next member.
  The set may be finite, so the function may find nothing; where it finds a
  member it skips none.
-/
import Mathlib.Data.Set.Card

namespace OctaCity.Lib

open List

variable {α : Type*} [LinearOrder α]

/-- `next` finds the least member above a point, if there is a member above it. -/
structure FindsNext (S : Set α) (next : α → Option α) : Prop where
  isLeast : ∀ {t n}, next t = some n → IsLeast {i | i ∈ S ∧ t < i} n
  le_of_none : ∀ {t}, next t = none → ∀ i ∈ S, i ≤ t

/-- `members` lists, in order and once each, the members from `first` up to but
    excluding `cursor`. -/
structure Enumerates (S : Set α) (first cursor : α) (members : List α) : Prop where
  sorted : members.Pairwise (· < ·)
  mem_iff : ∀ i, i ∈ members ↔ i ∈ S ∧ first ≤ i ∧ i < cursor

variable {S : Set α} {next : α → Option α} {first cursor last n : α} {members later : List α}

/-- A member is found above a point exactly when there is one. -/
theorem FindsNext.isSome_iff (h : FindsNext S next) (t : α) :
    (next t).isSome = true ↔ ∃ i ∈ S, t < i := by
  cases ht : next t with
  | none =>
    have hle := h.le_of_none ht
    simp only [Option.isSome_none, Bool.false_eq_true, false_iff]
    rintro ⟨i, hi, hlt⟩
    exact absurd (hle i hi) (not_le.mpr hlt)
  | some n =>
    have hleast := h.isLeast ht
    simp only [Option.isSome_some, true_iff]
    exact ⟨n, hleast.1.1, hleast.1.2⟩

/-- No member lies strictly between a point and the next member. -/
theorem le_of_isLeast (h : IsLeast {i | i ∈ S ∧ cursor < i} n) {i : α} (hi : i ∈ S)
    (hlt : cursor < i) : n ≤ i :=
  h.2 ⟨hi, hlt⟩

theorem Enumerates.nil : Enumerates S first first [] where
  sorted := List.Pairwise.nil
  mem_iff i := by
    simp only [not_mem_nil, false_iff]
    rintro ⟨-, hle, hlt⟩
    exact absurd hle (not_le.mpr hlt)

/-- The member at the cursor is listed and the cursor moves to the next one. -/
theorem Enumerates.concat (h : Enumerates S first cursor members) (hfirst : first ≤ cursor)
    (hcurs : cursor ∈ S) (hn : IsLeast {i | i ∈ S ∧ cursor < i} n) :
    Enumerates S first n (members ++ [cursor]) where
  sorted := by
    refine pairwise_append.mpr ⟨h.sorted, pairwise_singleton _ _, ?_⟩
    intro i hi j hj
    rw [mem_singleton.mp hj]
    exact ((h.mem_iff i).mp hi).2.2
  mem_iff i := by
    have hlt : cursor < n := hn.1.2
    rw [mem_append, h.mem_iff, mem_singleton]
    constructor
    · rintro (⟨hi, hle, hi'⟩ | rfl)
      · exact ⟨hi, hle, hi'.trans hlt⟩
      · exact ⟨hcurs, hfirst, hlt⟩
    · rintro ⟨hi, hle, hi'⟩
      rcases lt_trichotomy i cursor with hbelow | heq | habove
      · exact Or.inl ⟨hi, hle, hbelow⟩
      · exact Or.inr heq
      · exact absurd (le_of_isLeast hn hi habove) (not_le.mpr hi')

/-- Two listings that meet at a cursor. -/
theorem Enumerates.append (h : Enumerates S first cursor members)
    (h' : Enumerates S cursor last later) (hfirst : first ≤ cursor) (hlast : cursor ≤ last) :
    Enumerates S first last (members ++ later) where
  sorted := by
    refine pairwise_append.mpr ⟨h.sorted, h'.sorted, ?_⟩
    intro i hi j hj
    exact ((h.mem_iff i).mp hi).2.2.trans_le ((h'.mem_iff j).mp hj).2.1
  mem_iff i := by
    rw [mem_append, h.mem_iff, h'.mem_iff]
    constructor
    · rintro (⟨hi, hle, hlt⟩ | ⟨hi, hle, hlt⟩)
      · exact ⟨hi, hle, hlt.trans_le hlast⟩
      · exact ⟨hi, hfirst.trans hle, hlt⟩
    · rintro ⟨hi, hle, hlt⟩
      rcases lt_or_ge i cursor with hbelow | habove
      · exact Or.inl ⟨hi, hle, hbelow⟩
      · exact Or.inr ⟨hi, habove, hlt⟩

/-- Stepping from a member to the next one leaves one member fewer up to `last`. -/
theorem ncard_Icc_next [Finite α] (hcurs : cursor ∈ S) (hle : cursor ≤ last)
    (hn : IsLeast {i | i ∈ S ∧ cursor < i} n) :
    (S ∩ Set.Icc cursor last).ncard = (S ∩ Set.Icc n last).ncard + 1 := by
  have hsplit : S ∩ Set.Icc cursor last = insert cursor (S ∩ Set.Icc n last) := by
    ext i
    simp only [Set.mem_inter_iff, Set.mem_Icc, Set.mem_insert_iff]
    constructor
    · rintro ⟨hi, hci, hil⟩
      rcases hci.lt_or_eq with hlt | heq
      · exact Or.inr ⟨hi, le_of_isLeast hn hi hlt, hil⟩
      · exact Or.inl heq.symm
    · rintro (rfl | ⟨hi, hni, hil⟩)
      · exact ⟨hcurs, le_rfl, hle⟩
      · exact ⟨hi, hn.1.2.le.trans hni, hil⟩
  have hnotin : cursor ∉ S ∩ Set.Icc n last := by
    rintro ⟨-, hni, -⟩
    exact absurd hn.1.2 (not_lt.mpr hni)
  rw [hsplit, Set.ncard_insert_of_notMem hnotin]

/-- Only the cursor itself is left when no member lies above it. -/
theorem ncard_Icc_last [Finite α] (hcurs : cursor ∈ S) (hle : cursor ≤ last)
    (hmax : ∀ i ∈ S, i ≤ cursor) : (S ∩ Set.Icc cursor last).ncard = 1 := by
  rw [Set.ncard_eq_one]
  refine ⟨cursor, ?_⟩
  ext i
  simp only [Set.mem_inter_iff, Set.mem_Icc, Set.mem_singleton_iff]
  constructor
  · rintro ⟨hi, hci, -⟩
    exact le_antisymm (hmax i hi) hci
  · rintro rfl
    exact ⟨hcurs, le_rfl, hle⟩

end OctaCity.Lib
