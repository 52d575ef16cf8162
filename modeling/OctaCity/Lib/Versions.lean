/-
  OctaCity.Lib.Versions

  Rows that carry a version number, newest first on request: what
  `ORDER BY version DESC LIMIT 1` selects, and how an appended row changes it.
-/
import Mathlib.Data.List.MinMax

namespace OctaCity.Lib

open List

variable {α : Type} {version : α → Nat} {p : α → Bool} {rows : List α} {a b : α}

/-- The row of greatest version among those selected. -/
def newest (version : α → Nat) (p : α → Bool) (rows : List α) : Option α :=
  (rows.filter p).argmax version

theorem mem_of_newest (h : newest version p rows = some a) : a ∈ rows :=
  (mem_filter.mp (argmax_mem h)).1

theorem selected_of_newest (h : newest version p rows = some a) : p a = true :=
  (mem_filter.mp (argmax_mem h)).2

theorem le_of_newest (h : newest version p rows = some a) (hb : b ∈ rows) (hp : p b = true) :
    version b ≤ version a :=
  le_of_mem_argmax (mem_filter.mpr ⟨hb, hp⟩) h

theorem newest_eq_none_iff : newest version p rows = none ↔ ∀ b ∈ rows, p b = false := by
  unfold newest
  rw [argmax_eq_none, filter_eq_nil_iff]
  simp

/-- A row is the newest one when no other selected row reaches its version. -/
theorem newest_eq_some (ha : a ∈ rows) (hp : p a = true)
    (hall : ∀ b ∈ rows, p b = true → version b ≤ version a)
    (huniq : ∀ b ∈ rows, p b = true → version b = version a → b = a) :
    newest version p rows = some a := by
  cases hnewest : newest version p rows with
  | none =>
    have hnone := newest_eq_none_iff.mp hnewest a ha
    rw [hp] at hnone
    cases hnone
  | some found =>
    have hmem := mem_of_newest hnewest
    have hsel := selected_of_newest hnewest
    have hle := le_of_newest hnewest ha hp
    have hge := hall found hmem hsel
    rw [huniq found hmem hsel (Nat.le_antisymm hge hle)]

/-- A row that is not selected changes nothing. -/
theorem newest_append_of_not (hp : p a = false) :
    newest version p (rows ++ [a]) = newest version p rows := by
  unfold newest
  rw [filter_append, filter_cons_of_neg (by rw [hp]; exact Bool.false_ne_true),
    filter_nil, append_nil]

/-- A selected row of a later version becomes the newest one. -/
theorem newest_append_of_lt (hp : p a = true)
    (hall : ∀ b ∈ rows, p b = true → version b < version a) :
    newest version p (rows ++ [a]) = some a := by
  refine newest_eq_some (mem_append_right rows (mem_singleton_self a)) hp ?_ ?_
  · intro b hb hpb
    rcases mem_append.mp hb with hb | hb
    · exact Nat.le_of_lt (hall b hb hpb)
    · rw [mem_singleton.mp hb]
  · intro b hb hpb heq
    rcases mem_append.mp hb with hb | hb
    · exact absurd heq (Nat.ne_of_lt (hall b hb hpb))
    · exact mem_singleton.mp hb

/-! ## Published versions -/

/-- Versions of one identity have one owner, and each version is published once. -/
def Versioned (id owner version : α → Nat) (rows : List α) : Prop :=
  ∀ a ∈ rows, ∀ b ∈ rows, id a = id b → owner a = owner b ∧ (version a = version b → a = b)

/-- A row above every earlier version of its identity is published next. -/
theorem Versioned.append {id owner version : α → Nat} (h : Versioned id owner version rows)
    (hnew : ∀ row ∈ rows, id row = id a → owner row = owner a ∧ version row < version a) :
    Versioned id owner version (rows ++ [a]) := by
  intro b hb c hc hid
  rcases mem_append.mp hb with hb | hb <;> rcases mem_append.mp hc with hc | hc
  · exact h b hb c hc hid
  · rw [mem_singleton.mp hc] at hid ⊢
    obtain ⟨howned, hlt⟩ := hnew b hb hid
    exact ⟨howned, fun heq => absurd heq (Nat.ne_of_lt hlt)⟩
  · rw [mem_singleton.mp hb] at hid ⊢
    obtain ⟨howned, hlt⟩ := hnew c hc hid.symm
    exact ⟨howned.symm, fun heq => absurd heq (Nat.ne_of_gt hlt)⟩
  · rw [mem_singleton.mp hb, mem_singleton.mp hc]
    exact ⟨rfl, fun _ => rfl⟩

/-- What comparing the newest version with an expected one says about all versions. -/
theorem Versioned.earlier {id owner version : α → Nat} (h : Versioned id owner version rows)
    {identity project next : Nat} {expected : Option Nat}
    (hexp : (newest version (fun row => id row = identity) rows).map version = expected)
    (howner : ¬ (newest version (fun row => id row = identity) rows).any
      (fun row => owner row ≠ project))
    (hnext : next = expected.getD 0 + 1) {row : α} (hrow : row ∈ rows) (hid : id row = identity) :
    owner row = project ∧ version row < next := by
  cases hnewest : newest version (fun row => id row = identity) rows with
  | none =>
    have hnone := newest_eq_none_iff.mp hnewest row hrow
    exact absurd hid (of_decide_eq_false hnone)
  | some found =>
    have hsel := selected_of_newest hnewest
    have hfoundId : id found = identity := of_decide_eq_true hsel
    constructor
    · rw [hnewest] at howner
      have hfound : owner found = project := by
        by_contra hne
        exact howner (decide_eq_true hne)
      rw [← hfound]
      exact (h row hrow found (mem_of_newest hnewest) (hid.trans hfoundId.symm)).1
    · have hle := le_of_newest hnewest hrow (decide_eq_true hid)
      rw [← hexp, hnewest] at hnext
      have hstep : next = version found + 1 := hnext
      omega

end OctaCity.Lib
